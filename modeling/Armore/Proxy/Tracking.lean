import Armore.Proxy.Resolution

/-!
# What the IP table remembers

An entry of the IP table goes back to one frame: the last frame that carried the address as its source
and had the right to set the entry. A frame with a connection always has it; a frame without one, such as
a captured frame, has it only while there is no entry. Later captured frames renew the access time and
nothing else, and a time-out removes the entry as a whole.
-/

namespace Armore.Proxy

open Tables Armore.Lib

/-- Nothing but learning a source changes what is stored. -/
theorem Outcome.binding {u t' : Tables} {destination : IPAddress} {rest : List Event}
    (h : Outcome u destination t' rest) (ip : IPAddress) : t'.binding ip = u.binding ip := by
  cases h with
  | passed hsame => exact hsame.binding ip
  | discarded _ hsame => exact hsame.binding ip
  | dropped hsame _ => exact hsame.binding ip
  | requested _ _ _ hbinding _ => exact hbinding ip

/-- A stored pair is new in a step, set by the frame of the step, or it was stored before and the frame
had no right to change it. -/
theorem binding_step {cfg : Config} {t t' : Tables} {op : Op} {events : List Event}
    (hconsistent : Consistent cfg t) (hstep : Step cfg t (op, events) t') {ip : IPAddress}
    {mac : MacAddress} {connectionID : UUID} (hbinding : t'.binding ip = some (mac, connectionID)) :
    (op.Carries cfg ip mac connectionID ∧ (t.binding ip = none ∨ connectionID ≠ .empty))
      ∨ (t.binding ip = some (mac, connectionID)
        ∧ ∀ mac' connectionID', op.Carries cfg ip mac' connectionID' → connectionID' = .empty) := by
  rcases step_cases hstep with ⟨hnone, rfl, _⟩ | ⟨source, etherMac, connectionID₀, time, _, _, _,
    hcarries, _, _, houtcome⟩ | ⟨rfl, _, time, rfl⟩ | ⟨rfl, time, rfl, _⟩
  · exact .inr ⟨hbinding, fun _ _ hcarries => absurd hcarries (hnone _ _ _)⟩
  · rw [houtcome.binding, binding_updateIPTable] at hbinding
    split at hbinding
    · rename_i hlearn
      obtain ⟨rfl, _, hright⟩ := hlearn
      rw [Option.some.injEq, Prod.mk.injEq] at hbinding
      obtain ⟨rfl, rfl⟩ := hbinding
      exact .inl ⟨hcarries, hright⟩
    · rename_i hkept
      refine .inr ⟨hbinding, fun mac' connectionID' hcarries' => ?_⟩
      obtain ⟨rfl, _, rfl⟩ := hcarries.unique hcarries'
      have hvalid := hconsistent.valid source (by rw [hbinding]; exact Option.some_ne_none _)
      by_contra hne
      exact hkept ⟨rfl, hvalid, .inr hne⟩
  · refine .inr ⟨?_, fun _ _ hcarries => nomatch hcarries⟩
    rcases binding_checkActiveIPAddresses cfg t time ip with heq | heq
    · rw [heq] at hbinding
      cases hbinding
    · rwa [heq] at hbinding
  · exact .inr ⟨hbinding, fun _ _ hcarries => nomatch hcarries⟩

/-- **After every run, a stored pair is the one given by a frame of the run that carried the address and
had the right to set the entry; since that frame the pair has been stored in every state, and no later
frame that carried the address came on a connection.** -/
theorem stored_by_last_right {cfg : Config} {labels : List (Op × List Event)} {t : Tables}
    (hrun : Runs cfg labels t) {ip : IPAddress} {mac : MacAddress} {connectionID : UUID}
    (hbinding : t.binding ip = some (mac, connectionID)) :
    ∃ before op events after t₀ t₁, labels = before ++ (op, events) :: after
      ∧ Runs cfg before t₀ ∧ Step cfg t₀ (op, events) t₁
      ∧ op.Carries cfg ip mac connectionID
      ∧ (t₀.binding ip = none ∨ connectionID ≠ .empty)
      ∧ Run (Restrict (Step cfg) fun s _ => s.binding ip = some (mac, connectionID)) t₁ after t
      ∧ ∀ label ∈ after, ∀ mac' connectionID', label.1.Carries cfg ip mac' connectionID' →
          connectionID' = .empty := by
  induction hrun with
  | nil => cases hbinding
  | @snoc labels t t' label hbefore hlast ih =>
      obtain ⟨op, events⟩ := label
      rcases binding_step (.of_runs hbefore) hlast hbinding with ⟨hcarries, hright⟩ | ⟨hstored, hlater⟩
      · exact ⟨labels, op, events, [], t, t', rfl, hbefore, hlast, hcarries, hright, .nil, nofun⟩
      · obtain ⟨before, op₀, events₀, after, t₀, t₁, rfl, hrun₀, hstep₀, hcarries, hright, hafter,
          hempty⟩ := ih hstored
        refine ⟨before, op₀, events₀, after ++ [(op, events)], t₀, t₁, ?_, hrun₀, hstep₀, hcarries,
          hright, hafter.snoc ⟨hlast, hstored⟩, ?_⟩
        · rw [List.append_assoc, List.cons_append]
        · intro label hlabel
          rcases List.mem_append.mp hlabel with hmem | hmem
          · exact hempty label hmem
          · rw [List.mem_singleton] at hmem
            subst hmem
            exact hlater

/-! ### A host that changes its interface -/

/-- A packet from `10.0.0.5` to `10.0.0.9`, captured with the given source address. -/
def capturedFrom (octet : UInt8) : Buffer :=
  .ofList (List.replicate 6 0xAA ++ List.replicate 6 octet ++ [0x08, 0x00]
    ++ [0x45, 0, 0, 20, 0, 0, 0, 0, 64, 6, 0, 0] ++ [10, 0, 0, 5] ++ [10, 0, 0, 9]) (by simp)

/-- The table after the first packet. -/
def oneCapture : Tables := (encodePacket translatingServer (fun _ => 0) .empty (capturedFrom 0x11)).1

/-- The table after a second packet from another interface. -/
def twoCaptures : Tables := (encodePacket translatingServer (fun _ => 0) oneCapture (capturedFrom 0x22)).1

/-- The law at the table after the two packets. -/
theorem stored_by_last_right_twoCaptures :
    ∃ labels before op events after t₀ t₁, labels = before ++ (op, events) :: after
      ∧ Runs translatingServer before t₀ ∧ Step translatingServer t₀ (op, events) t₁
      ∧ op.Carries translatingServer (.ipv4 0x0500000A) (.copyFrom fun _ => 0x11) .empty
      ∧ (t₀.binding (.ipv4 0x0500000A) = none ∨ UUID.empty ≠ .empty)
      ∧ Run (Restrict (Step translatingServer) fun s _ =>
          s.binding (.ipv4 0x0500000A) = some (.copyFrom fun _ => 0x11, .empty)) t₁ after twoCaptures
      ∧ ∀ label ∈ after, ∀ mac' connectionID',
          label.1.Carries translatingServer (.ipv4 0x0500000A) mac' connectionID' →
          connectionID' = .empty := by
  have hfirst : Runs translatingServer _ oneCapture :=
    .single (.encodePacket (fun _ => 0) .empty (capturedFrom 0x11))
  exact ⟨_, stored_by_last_right
    (hfirst.snoc (.encodePacket (fun _ => 0) oneCapture (capturedFrom 0x22))) (by decide +kernel)⟩

/-- The last frame carries `10.0.0.5` with the new hardware address, and the old one stays stored. -/
theorem twoCaptures_not_last :
    ∃ labels events, Runs translatingServer (labels ++ [(.encodePacket (capturedFrom 0x22), events)])
        twoCaptures
      ∧ (Op.encodePacket (capturedFrom 0x22)).Carries translatingServer (.ipv4 0x0500000A)
        (.copyFrom fun _ => 0x22) .empty
      ∧ twoCaptures.binding (.ipv4 0x0500000A) ≠ some (.copyFrom fun _ => 0x22, .empty) := by
  have hfirst : Runs translatingServer _ oneCapture :=
    .single (.encodePacket (fun _ => 0) .empty (capturedFrom 0x11))
  refine ⟨_, _, hfirst.snoc (.encodePacket (fun _ => 0) oneCapture (capturedFrom 0x22)), ?_,
    by decide +kernel⟩
  have haddresses : capturedAddresses (capturedFrom 0x22)
      = some (.ipv4 0x0500000A, .ipv4 0x0900000A) := by rfl
  have hmac : MacAddress.copyFrom (macAt (capturedFrom 0x22).byte 6) = .copyFrom fun _ => 0x22 := by
    decide +kernel
  rw [← hmac]
  exact .captured haddresses

end Armore.Proxy
