import Armore.Lib.Chebyshev
import Armore.Stats.Baseline

/-!
# The score of a value

The score is Chebyshev's of the distance from the average, and every division in it has a divisor. What it
needs of a field, a deviation that is not negative, holds of each field that the updates can make of the
default one, and so of every field of a normal tree: the functions that work on the tree do nothing else to
its fields.
-/

namespace Armore.Baseline

open Lib

open AnoDet (AnoType EachField EachNode)

section

variable {K : Type} [Field K] [LinearOrder K] [IsStrictOrderedRing K]

/-! ### The score -/

/-- The band around the average. -/
theorem mem_band_iff (field : FieldInfo K) (x : K) :
    (x ≥ field.countAvg - field.std ∧ x ≤ field.countAvg + field.std) ↔ |x - field.countAvg| ≤ field.std := by
  rw [abs_le]
  constructor
  · rintro ⟨hlower, hupper⟩
    constructor <;> linarith
  · rintro ⟨hlower, hupper⟩
    constructor <;> linarith

/-- The description of a value. -/
def descOf (field : FieldInfo K) (x : K) : AnoType :=
  if |x - field.countAvg| ≤ field.std then .unknown
  else if x > field.countAvg + field.std then .fieldTooLarge else .fieldTooSmall

theorem calAnomalyScore_eq {field : FieldInfo K} (hstd : 0 ≤ field.std) (x : K) (g : Judgement K) :
    calAnomalyScore field x g =
      (.ok (chebyshev field.std |x - field.countAvg|),
        { current := some x, average := some field.countAvg, std := some field.std, desc := descOf field x }) := by
  by_cases hnear : |x - field.countAvg| ≤ field.std
  · rw [calAnomalyScore, if_pos ((mem_band_iff field x).mpr hnear), chebyshev, if_pos hnear, descOf, if_pos hnear]
  · have hne : x - field.countAvg ≠ 0 := by
      intro hzero
      rw [hzero, abs_zero] at hnear
      exact hnear hstd
    rw [calAnomalyScore, if_neg (mt (mem_band_iff field x).mp hnear), chebyshev, if_neg hnear, descOf, if_neg hnear,
      divide_ok (mul_ne_zero hne hne), abs_mul_abs_self]
    rfl

theorem descOf_eq_fieldTooLarge_iff (field : FieldInfo K) (x : K) :
    descOf field x = .fieldTooLarge ↔ field.countAvg + field.std < x := by
  unfold descOf
  split
  · rename_i hnear
    have hupper := (abs_le.mp hnear).2
    refine ⟨nofun, fun habove => ?_⟩
    linarith
  · split
    · rename_i habove
      exact ⟨fun _ => habove, fun _ => rfl⟩
    · rename_i hbelow
      exact ⟨nofun, fun habove => absurd habove hbelow⟩

theorem descOf_eq_fieldTooSmall_iff {field : FieldInfo K} (hstd : 0 ≤ field.std) (x : K) :
    descOf field x = .fieldTooSmall ↔ x < field.countAvg - field.std := by
  unfold descOf
  split
  · rename_i hnear
    have hlower := (abs_le.mp hnear).1
    refine ⟨nofun, fun hbelow => ?_⟩
    linarith
  · rename_i hfar
    split
    · rename_i habove
      refine ⟨nofun, fun hbelow => ?_⟩
      linarith
    · rename_i hbelow
      refine ⟨fun _ => ?_, fun _ => rfl⟩
      by_contra hin
      exact hfar ((mem_band_iff field x).mp ⟨not_lt.mp hin, not_lt.mp hbelow⟩)

/-! ### What the updates leave -/

/-- What can become of the default field. -/
inductive Reached (sqrt : K → K) : FieldInfo K → Prop
  | init : Reached sqrt .init
  | put {field : FieldInfo K} (h : Reached sqrt field) (x : K) : Reached sqrt (field.put x)
  | calAvgStd {field : FieldInfo K} (h : Reached sqrt field) : Reached sqrt (calAvgStd sqrt field)
  | updateAvgStd {field : FieldInfo K} (h : Reached sqrt field) (x : K) : Reached sqrt (updateAvgStd sqrt field x).1
  | updateAvgStd2 {field : FieldInfo K} (h : Reached sqrt field) (x : K) : Reached sqrt (updateAvgStd2 field x)

/-- The invariant; the second half is what the root is taken of. -/
structure FieldInfo.Sound (field : FieldInfo K) : Prop where
  std_nonneg : 0 ≤ field.std
  m2_nonneg : 0 ≤ field.m2

variable {sqrt : K → K} (hsqrt : ∀ q, 0 ≤ q → 0 ≤ sqrt q) {field : FieldInfo K}

include hsqrt in
theorem sound_calAvgStd (field : FieldInfo K) : (calAvgStd sqrt field).Sound := by
  have hm2 : 0 ≤ squaredDeviations field.countQueue := squaredDeviations_nonneg _
  rw [calAvgStd_eq]
  refine ⟨?_, hm2⟩
  dsimp only
  split
  · rename_i hmany
    have hdivisor : (0 : K) ≤ field.countQueue.length - 1 := by
      rw [sub_nonneg]
      exact_mod_cast hmany.le
    exact hsqrt _ (div_nonneg hm2 hdivisor)
  · exact le_rfl

/-- The sample moves the average towards itself, not past itself. -/
theorem update_nonneg (delta : K) {n : Nat} (hn : 1 ≤ n) : 0 ≤ delta * (delta - delta / n) := by
  have hone : (1 : K) ≤ n := by exact_mod_cast hn
  have hfactor : (0 : K) ≤ 1 - 1 / n := sub_nonneg.mpr ((div_le_one (by linarith)).mpr hone)
  have hsplit : delta * (delta - delta / n) = delta * delta * (1 - 1 / n) := by ring
  rw [hsplit]
  exact mul_nonneg (mul_self_nonneg delta) hfactor

include hsqrt in
theorem sound_updateAvgStd (hsound : field.Sound) (x : K) : (updateAvgStd sqrt field x).1.Sound := by
  have hcount : 1 ≤ (field.put x).countQueue.length := by simp [FieldInfo.put]
  have hincrease := update_nonneg (x - field.countAvg) hcount
  rw [sub_sub] at hincrease
  have hm2 := add_nonneg hsound.m2_nonneg hincrease
  unfold updateAvgStd divide
  dsimp only
  by_cases hzero : (((field.put x).countQueue.length - 1 : ℕ) : K) = 0
  · rw [if_pos hzero]
    exact ⟨hsound.std_nonneg, hm2⟩
  · rw [if_neg hzero]
    exact ⟨hsqrt _ (div_nonneg hm2 (Nat.cast_nonneg _)), hm2⟩

theorem sound_updateAvgStd2 (hsound : field.Sound) (x : K) : (updateAvgStd2 field x).Sound := by
  unfold updateAvgStd2
  split
  · rename_i habove
    exact ⟨sub_nonneg.mpr habove.le, hsound.m2_nonneg⟩
  · rename_i hbelow
    exact ⟨sub_nonneg.mpr (not_lt.mp hbelow), hsound.m2_nonneg⟩

include hsqrt in
theorem Reached.sound (h : Reached sqrt field) : field.Sound := by
  induction h with
  | init => exact ⟨le_rfl, le_rfl⟩
  | put _ x ih => exact ⟨ih.std_nonneg, ih.m2_nonneg⟩
  | calAvgStd _ _ => exact sound_calAvgStd hsqrt _
  | updateAvgStd _ x ih => exact sound_updateAvgStd hsqrt ih x
  | updateAvgStd2 _ x ih => exact sound_updateAvgStd2 ih x

end

/-! ### The fields of a normal tree -/

/-- A field of a node of the normal tree. -/
def ofNode (field : AnoDet.FieldInfo) : FieldInfo ℚ := ⟨field.countQueue, field.countAvg, field.std, field.m2⟩

def FieldInfo.toNode (field : FieldInfo ℚ) : AnoDet.FieldInfo :=
  { countQueue := field.countQueue, countAvg := field.countAvg, std := field.std, m2 := field.m2 }

def ofMoments (m : AnoDet.Moments) : Moments ℚ := ⟨m.n, m.mean, m.m2⟩

theorem ofNode_calAvgStd (sqrt : ℚ → ℚ) (field : AnoDet.FieldInfo) :
    ofNode (AnoDet.calAvgStd sqrt field) = calAvgStd sqrt (ofNode field) := by
  have hstart : (⟨0, 0, 0⟩ : Moments ℚ) = ofMoments {} := rfl
  have hmoments : (ofNode field).countQueue.foldl Moments.add (ofMoments {})
      = ofMoments (field.countQueue.foldl AnoDet.Moments.add {}) :=
    List.foldl_hom ofMoments fun _ _ => rfl
  rw [calAvgStd, hstart, hmoments]
  rfl

theorem ofNode_updateAvgStd2 (field : AnoDet.FieldInfo) (x : ℚ) :
    ofNode (AnoDet.updateAvgStd2 field x) = updateAvgStd2 (ofNode field) x := by
  unfold AnoDet.updateAvgStd2 updateAvgStd2
  split <;> rename_i habove
  · exact (if_pos habove).symm
  · exact (if_neg habove).symm

/-- On a tree the score and the description are the same ones. -/
theorem calAnomalyScore_ofNode (field : AnoDet.FieldInfo) (x : ℚ) (g : AnoDet.AnoInfo) (judgement : Judgement ℚ) :
    (calAnomalyScore (ofNode field) x judgement).1 = (AnoDet.calAnomalyScore field x g).1
      ∧ (calAnomalyScore (ofNode field) x judgement).2.desc = (AnoDet.calAnomalyScore field x g).2.desc := by
  unfold calAnomalyScore AnoDet.calAnomalyScore ofNode
  dsimp only
  split <;> exact ⟨rfl, rfl⟩

/-- What can become of the default tree. -/
inductive TreeReached (sqrt : ℚ → ℚ) (numPeriod : Nat) : AnoDet.RootNode → Prop
  | init : TreeReached sqrt numPeriod (.leaf {} 6)
  | initializeTree {tree : AnoDet.RootNode} (h : TreeReached sqrt numPeriod tree) (current : StatsCount.CountedTree) :
      TreeReached sqrt numPeriod (AnoDet.initializeTree current tree)
  | calculateTree {tree : AnoDet.RootNode} (h : TreeReached sqrt numPeriod tree) (d : AnoDet.Detector) :
      TreeReached sqrt numPeriod (AnoDet.calculateTree sqrt numPeriod tree d).1
  | feedback {tree tree' : AnoDet.RootNode} (h : TreeReached sqrt numPeriod tree) (anomaly : AnoDet.AnoInfo)
      (hok : AnoDet.feedback tree anomaly = .ok tree') : TreeReached sqrt numPeriod tree'
  | updateAvgStd {tree : AnoDet.RootNode} {path : List Text} {info : AnoDet.CountInfo} {name : AnoDet.FieldName}
      {field : AnoDet.FieldInfo} (h : TreeReached sqrt numPeriod tree) (hinfo : tree.find? path = some info)
      (hfield : info.get? name = some field) (x : ℚ) :
      TreeReached sqrt numPeriod
        (AnoDet.modifyAt tree path fun info => info.set name (updateAvgStd sqrt (ofNode field) x).1.toNode)

section

variable {P : AnoDet.FieldInfo → Prop}

variable (hdefault : P {}) (hput : ∀ field x, P field → P (AnoDet.FieldInfo.put field x))

include hput in
/-- The zeros at the end of the training are put one by one. -/
theorem pad_of_put {field : AnoDet.FieldInfo} (hfield : P field) (numPeriod : Nat) : P (field.pad numPeriod) := by
  have hzeros (k : Nat) : P { field with countQueue := field.countQueue ++ List.replicate k 0 } := by
    induction k with
    | zero => rw [List.replicate_zero, List.append_nil]; exact hfield
    | succ k ih =>
        rw [List.replicate_succ', ← List.append_assoc]
        exact hput _ 0 ih
  exact hzeros _

include hdefault hput in
theorem putOptional_of_put {field? : Option AnoDet.FieldInfo} (hfield : ∀ field, field? = some field → P field)
    (x? : Option ℚ) : ∀ field, AnoDet.putOptional field? x? = some field → P field := by
  intro field hsome
  cases x? with
  | none => exact hfield field hsome
  | some x =>
      rw [← Option.some.inj hsome]
      refine hput _ x ?_
      cases field? with
      | none => exact hdefault
      | some field => exact hfield field rfl

include hdefault hput in
theorem EachField.initializeNode {normal : AnoDet.CountInfo} (heach : EachField P normal)
    (current : StatsCount.CountedInfo) : EachField P (AnoDet.initializeNode current normal) := by
  intro name field hget
  cases name with
  | num => exact Option.some.inj hget ▸ hput _ _ (heach .num _ rfl)
  | bytes => exact Option.some.inj hget ▸ hput _ _ (heach .bytes _ rfl)
  | ratioRes => exact putOptional_of_put hdefault hput (heach .ratioRes) _ field hget
  | avgDelay => exact putOptional_of_put hdefault hput (heach .avgDelay) _ field hget

variable {sqrt : ℚ → ℚ} (hcal : ∀ field, P field → P (AnoDet.calAvgStd sqrt field))

include hput hcal in
theorem EachField.calAvgStdNode {normal : AnoDet.CountInfo} (heach : EachField P normal) (numPeriod : Nat) :
    EachField P (AnoDet.calAvgStdNode sqrt numPeriod normal) := by
  intro name field hget
  cases name with
  | num => exact Option.some.inj hget ▸ hcal _ (pad_of_put hput (heach .num _ rfl) numPeriod)
  | bytes => exact Option.some.inj hget ▸ hcal _ (heach .bytes _ rfl)
  | ratioRes =>
      obtain ⟨field', hfield', rfl⟩ := Option.map_eq_some_iff.mp hget
      exact hcal _ (heach .ratioRes field' hfield')
  | avgDelay =>
      obtain ⟨field', hfield', rfl⟩ := Option.map_eq_some_iff.mp hget
      exact hcal _ (heach .avgDelay field' hfield')

end

/-! ### The feedback -/

theorem find?_of_nodeAt {n : Nat} {tree : Trie Text AnoDet.CountInfo n} {path : List Text} {info : AnoDet.CountInfo}
    (hok : AnoDet.nodeAt tree path = .ok info) : tree.find? path = some info := by
  induction n generalizing path with
  | zero =>
      cases path with
      | nil => rw [Trie.find?_nil, Except.ok.inj hok]
      | cons key path => cases hok
  | succ n ih =>
      cases path with
      | nil => rw [Trie.find?_nil, Except.ok.inj hok]
      | cons key path =>
          obtain ⟨children, hchildren, hrest⟩ := bind_ok.mp hok
          rw [Trie.find?_cons, Trie.child?]
          cases hsome : tree.children with
          | none => rw [hsome] at hchildren; cases hchildren
          | some table =>
              rw [hsome] at hchildren
              rw [← Except.ok.inj hchildren] at hrest
              cases hget : table.get? key with
              | none => rw [hget] at hrest; cases hrest
              | some child =>
                  rw [hget] at hrest
                  simpa [hget] using ih hrest

theorem read_ok {α : Type} {a? : Option α} {a : α} (h : AnoDet.read a? = .ok a) : a? = some a := by
  cases a? with
  | none => cases h
  | some a' => rw [Except.ok.inj h]

/-- The feedback leaves the tree as it is or widens one field of one node. -/
theorem feedback_cases {tree tree' : AnoDet.RootNode} {anomaly : AnoDet.AnoInfo}
    (hok : AnoDet.feedback tree anomaly = .ok tree') :
    tree' = tree ∨ ∃ path info name field x, tree.find? path = some info ∧ info.get? name = some field
      ∧ tree' = AnoDet.modifyAt tree path fun info => info.set name (AnoDet.updateAvgStd2 field x) := by
  unfold AnoDet.feedback at hok
  split at hok
  · obtain ⟨x, _, hok⟩ := bind_ok.mp hok
    obtain ⟨⟨path, name⟩, _, hok⟩ := bind_ok.mp hok
    obtain ⟨info, hinfo, hok⟩ := bind_ok.mp hok
    obtain ⟨field, hfield, hok⟩ := bind_ok.mp hok
    exact .inr ⟨path, info, name, field, x, find?_of_nodeAt hinfo, read_ok hfield, (Except.ok.inj hok).symm⟩
  · exact .inl (Except.ok.inj hok).symm

/-- The functions on a tree do to its fields what the updates do. -/
theorem TreeReached.each {sqrt : ℚ → ℚ} {numPeriod : Nat} {tree : AnoDet.RootNode}
    (h : TreeReached sqrt numPeriod tree) : EachNode (fun field => Reached sqrt (ofNode field)) tree := by
  have hput (field : AnoDet.FieldInfo) (x : ℚ) (hfield : Reached sqrt (ofNode field)) :
      Reached sqrt (ofNode (field.put x)) := hfield.put x
  have hcal (field : AnoDet.FieldInfo) (hfield : Reached sqrt (ofNode field)) :
      Reached sqrt (ofNode (AnoDet.calAvgStd sqrt field)) := by
    rw [ofNode_calAvgStd]
    exact hfield.calAvgStd
  have hempty : EachField (fun field => Reached sqrt (ofNode field)) {} := by
    intro name field hget
    cases name with
    | num => exact Option.some.inj hget ▸ Reached.init
    | bytes => exact Option.some.inj hget ▸ Reached.init
    | ratioRes => cases hget
    | avgDelay => cases hget
  induction h with
  | init =>
      intro path info hfind
      cases path with
      | nil =>
          rw [Trie.find?_nil, Trie.info_leaf] at hfind
          exact Option.some.inj hfind ▸ hempty
      | cons key path => rw [Trie.find?_leaf_cons] at hfind; cases hfind
  | @initializeTree tree _ current ih =>
      intro path info hfind
      rw [AnoDet.find?_initializeTree] at hfind
      cases hcurrent : current.find? path with
      | none =>
          rw [hcurrent] at hfind
          exact ih path info hfind
      | some currentInfo =>
          rw [hcurrent] at hfind
          rw [← Option.some.inj hfind]
          refine EachField.initializeNode .init hput ?_ currentInfo
          cases hnormal : tree.find? path with
          | none => exact hempty
          | some normal => exact ih path normal hnormal
  | calculateTree _ d ih =>
      intro path info hfind
      rw [AnoDet.find?_calculateTree] at hfind
      obtain ⟨normal, hnormal, rfl⟩ := Option.map_eq_some_iff.mp hfind
      exact EachField.calAvgStdNode hput hcal (ih path normal hnormal) numPeriod
  | feedback _ anomaly hok ih =>
      rcases feedback_cases hok with rfl | ⟨path, info, name, field, x, hinfo, hfield, rfl⟩
      · exact ih
      · refine ih.modifyAt hinfo name ?_
        rw [ofNode_updateAvgStd2]
        exact (ih path info hinfo name field hfield).updateAvgStd2 x
  | @updateAvgStd tree path info name field _ hinfo hfield x ih =>
      exact ih.modifyAt hinfo name ((ih path info hinfo name field hfield).updateAvgStd x)

/-- **The score is a sound Chebyshev score.** With a deviation that is not negative it is a number between
zero and one that grows with the distance and falls with the deviation, and the description says on which
side of the band a value lies. The updates leave no negative deviation, in a field or in a tree of fields. -/
theorem anomaly_score_sound {K : Type} [Field K] [LinearOrder K] [IsStrictOrderedRing K] (sqrt : K → K)
    (hsqrt : ∀ q, 0 ≤ q → 0 ≤ sqrt q) :
    (∀ (field : FieldInfo K) (x : K) (g : Judgement K), 0 ≤ field.std →
      ∃ score, (calAnomalyScore field x g).1 = .ok score ∧ 0 ≤ score ∧ score ≤ 1
        ∧ (score = 0 ↔ |x - field.countAvg| ≤ field.std)
        ∧ ((calAnomalyScore field x g).2.desc = .fieldTooLarge ↔ field.countAvg + field.std < x)
        ∧ ((calAnomalyScore field x g).2.desc = .fieldTooSmall ↔ x < field.countAvg - field.std))
      ∧ (∀ (field field' : FieldInfo K) (x x' : K) (g g' : Judgement K) (score score' : K),
        0 ≤ field.std → 0 ≤ field'.std →
        (calAnomalyScore field x g).1 = .ok score → (calAnomalyScore field' x' g').1 = .ok score' →
        (field.std = field'.std → |x - field.countAvg| ≤ |x' - field'.countAvg| → score ≤ score')
          ∧ (|x - field.countAvg| = |x' - field'.countAvg| → field.std ≤ field'.std → score' ≤ score))
      ∧ (∀ field, Reached sqrt field → 0 ≤ field.std)
      ∧ ∀ (sqrt : ℚ → ℚ) (numPeriod : Nat) (tree : AnoDet.RootNode), (∀ q, 0 ≤ q → 0 ≤ sqrt q) →
        TreeReached sqrt numPeriod tree →
        ∀ path info name field, tree.find? path = some info → info.get? name = some field → 0 ≤ field.std := by
  refine ⟨?_, ?_, fun field hreached => (hreached.sound hsqrt).std_nonneg, ?_⟩
  · intro field x g hstd
    rw [calAnomalyScore_eq hstd]
    exact ⟨_, rfl, chebyshev_nonneg hstd, chebyshev_le_one hstd, chebyshev_eq_zero_iff hstd,
      descOf_eq_fieldTooLarge_iff field x, descOf_eq_fieldTooSmall_iff hstd x⟩
  · intro field field' x x' g g' score score' hstd hstd' hscore hscore'
    rw [calAnomalyScore_eq hstd] at hscore
    rw [calAnomalyScore_eq hstd'] at hscore'
    rw [← Except.ok.inj hscore, ← Except.ok.inj hscore']
    exact ⟨fun hsame hfarther => chebyshev_le_chebyshev hstd' hsame.ge hfarther,
      fun hsame hwider => chebyshev_le_chebyshev hstd hwider hsame.ge⟩
  · intro sqrt numPeriod tree hsqrt htree path info name field hinfo hfield
    exact ((htree.each path info hinfo name field hfield).sound hsqrt).std_nonneg

/-- A value at two deviations from the average of a field, and the field and the root after a first sample. -/
theorem anomaly_score_sound_real :
    (∃ score, (calAnomalyScore (⟨[], 0, 1, 0⟩ : FieldInfo ℝ) 2 ⟨none, none, none, .unknown⟩).1 = .ok score
        ∧ 0 ≤ score ∧ score ≤ 1)
      ∧ 0 ≤ (updateAvgStd Real.sqrt .init 5).1.std
      ∧ ∀ field, (AnoDet.initializeTree (.leaf { num := 1, bytes := 60 } 6) (.leaf {} 6)).find? [] = some field →
        0 ≤ field.num.std := by
  have hall := anomaly_score_sound Real.sqrt fun q _ => Real.sqrt_nonneg q
  obtain ⟨score, hscore, hnonneg, hle, _⟩ :=
    hall.1 ⟨[], 0, 1, 0⟩ 2 ⟨none, none, none, .unknown⟩ zero_le_one
  refine ⟨⟨score, hscore, hnonneg, hle⟩, hall.2.2.1 _ (Reached.init.updateAvgStd 5), fun info hinfo => ?_⟩
  exact hall.2.2.2 (fun q => q) 1 _ (fun q hq => hq) (TreeReached.init.initializeTree _) [] info .num info.num hinfo rfl

end Armore.Baseline
