import Armore.Lib.Table
import Mathlib.Data.List.Nodup

/-!
# Trees of keyed tables

A tree of bounded depth whose nodes carry an `info` and, where they have any, a table of children. Levels
differ in type: a tree of depth `n + 1` has children of depth `n`, one of depth `0` is its info alone. A
node is told by its path, the keys from the root down, and a tree is seen from outside through `find?`,
which gives the info at a path.
-/

namespace Armore.Lib

variable {K I W : Type}

namespace Table

theorem mem_entries_iff [DecidableEq K] {t : Table K W} {key : K} {value : W} :
    ⟨key, value⟩ ∈ t.entries ↔ t.get? key = some value := by
  rw [get?_eq_lookup]
  exact AList.mem_lookup_iff.symm

/-- The values changed, under the same keys in the same order. -/
def map {V : Type} (f : W → V) (t : Table K W) : Table K V where
  entries := t.entries.map fun entry => ⟨entry.1, f entry.2⟩
  nodupKeys := by
    show ((t.entries.map _).map Sigma.fst).Nodup
    rw [List.map_map]
    exact t.keys_nodup

theorem get?_map [DecidableEq K] {V : Type} (f : W → V) (t : Table K W) (key : K) :
    (t.map f).get? key = (t.get? key).map f := by
  rw [get?, map, List.find?_map, Option.map_map, get?, Option.map_map]
  rfl

/-- Changes of the values of a table that undo each other. -/
theorem map_map_of_get? [DecidableEq K] {V : Type} {f : W → V} {g : V → W} {t : Table K W}
    (hback : ∀ key value, t.get? key = some value → g (f value) = value) : (t.map f).map g = t := by
  apply AList.ext
  show (t.entries.map _).map _ = t.entries
  rw [List.map_map]
  refine (List.map_congr_left fun entry hentry => ?_).trans (List.map_id t.entries)
  exact congrArg (Sigma.mk entry.1) (hback entry.1 entry.2 (mem_entries_iff.mp hentry))

end Table

/-- A node: what it carries, and its children if it has a table of them. -/
structure Node (K I C : Type) where
  info : I
  children : Option (Table K C)

/-- The trees of a depth. -/
def Trie (K I : Type) : Nat → Type
  | 0 => I
  | n + 1 => Node K I (Trie K I n)

namespace Trie

def info : {n : Nat} → Trie K I n → I
  | 0, t => t
  | _ + 1, t => Node.info t

/-- A node without a table of children. -/
def leaf (i : I) : (n : Nat) → Trie K I n
  | 0 => i
  | _ + 1 => ⟨i, none⟩

def mapInfo (f : I → I) : {n : Nat} → Trie K I n → Trie K I n
  | 0, t => f t
  | _ + 1, t => ⟨f (Node.info t), Node.children t⟩

/-- The infos of all nodes changed. -/
def map {J : Type} (f : I → J) : {n : Nat} → Trie K I n → Trie K J n
  | 0, t => f t
  | _ + 1, t => ⟨f (Node.info t), (Node.children t).map (Table.map (map f))⟩

variable {n : Nat}

def children (t : Trie K I (n + 1)) : Option (Table K (Trie K I n)) := Node.children t

/-- The children in the order of iteration. -/
def childList (t : Trie K I (n + 1)) : List (Sigma fun _ : K => Trie K I n) :=
  (t.children.map fun children => children.entries).getD []

theorem childList_nodup (t : Trie K I (n + 1)) : (t.childList.map Sigma.fst).Nodup := by
  unfold childList
  cases t.children with
  | none => exact List.nodup_nil
  | some children => exact children.keys_nodup

@[simp] theorem info_leaf (i : I) (n : Nat) : (leaf i n : Trie K I n).info = i := by
  cases n <;> rfl

@[simp] theorem info_mapInfo (f : I → I) (t : Trie K I n) : (t.mapInfo f).info = f t.info := by
  cases n <;> rfl

@[simp] theorem children_mapInfo (f : I → I) (t : Trie K I (n + 1)) :
    (t.mapInfo f).children = t.children := rfl

variable [DecidableEq K]

def child? (t : Trie K I (n + 1)) (key : K) : Option (Trie K I n) :=
  t.children.bind fun children => children.get? key

/-- Store a child, in a new table if there is none. -/
def putChild (t : Trie K I (n + 1)) (key : K) (child : Trie K I n) : Trie K I (n + 1) :=
  ⟨t.info, some ((t.children.getD ∅).put key child)⟩

/-- The info at a path. -/
def find? : {n : Nat} → Trie K I n → List K → Option I
  | _, t, [] => some t.info
  | 0, _, _ :: _ => none
  | _ + 1, t, key :: path => (t.child? key).bind fun child => child.find? path

theorem mem_childList {t : Trie K I (n + 1)} {key : K} {child : Trie K I n} :
    ⟨key, child⟩ ∈ t.childList ↔ t.child? key = some child := by
  unfold childList child?
  cases t.children with
  | none => simp
  | some children => exact Table.mem_entries_iff

/-- What the children contribute to a list, when only the child under a key contributes anything. -/
theorem flatMap_childList {β : Type*} {f : (Sigma fun _ : K => Trie K I n) → List β} (key : K)
    (hother : ∀ entry, entry.1 ≠ key → f entry = []) (t : Trie K I (n + 1)) :
    t.childList.flatMap f = (t.child? key).elim [] fun child => f ⟨key, child⟩ := by
  have hmem : ∀ child, ⟨key, child⟩ ∈ t.childList ↔ t.child? key = some child := fun _ => mem_childList
  have hnodup := t.childList_nodup
  generalize t.childList = entries, t.child? key = found at hmem hnodup
  induction entries generalizing found with
  | nil =>
      cases found with
      | none => rfl
      | some child => cases (hmem child).mpr rfl
  | cons entry entries ih =>
      rw [List.map_cons, List.nodup_cons] at hnodup
      rw [List.flatMap_cons]
      by_cases hkey : entry.1 = key
      · obtain ⟨key', child⟩ := entry
        obtain rfl : key' = key := hkey
        obtain rfl : found = some child := (hmem child).mp List.mem_cons_self
        have hnone : entries.flatMap f = [] := by
          apply List.flatMap_eq_nil_iff.mpr
          intro entry hentry
          apply hother
          rintro rfl
          exact hnodup.1 (List.mem_map.mpr ⟨entry, hentry, rfl⟩)
        rw [hnone, List.append_nil]
        rfl
      · rw [hother entry hkey, List.nil_append]
        refine ih _ ?_ hnodup.2
        intro child
        rw [← hmem child, List.mem_cons]
        refine ⟨.inr, ?_⟩
        rintro (rfl | hrest)
        · exact absurd rfl hkey
        · exact hrest

@[simp] theorem child?_leaf (i : I) (key : K) : (leaf i (n + 1)).child? key = none := rfl

@[simp] theorem child?_mapInfo (f : I → I) (t : Trie K I (n + 1)) (key : K) :
    (t.mapInfo f).child? key = t.child? key := rfl

@[simp] theorem info_putChild (t : Trie K I (n + 1)) (key : K) (child : Trie K I n) :
    (t.putChild key child).info = t.info := rfl

theorem child?_putChild (t : Trie K I (n + 1)) (key : K) (child : Trie K I n) (other : K) :
    (t.putChild key child).child? other = if other = key then some child else t.child? other := by
  show ((t.children.getD ∅).put key child).get? other = _
  rw [Table.get?_put, child?]
  cases t.children <;> rfl

@[simp] theorem find?_nil (t : Trie K I n) : t.find? [] = some t.info := by
  cases n <;> rfl

@[simp] theorem find?_zero_cons (t : Trie K I 0) (key : K) (path : List K) :
    t.find? (key :: path) = none := rfl

theorem find?_cons (t : Trie K I (n + 1)) (key : K) (path : List K) :
    t.find? (key :: path) = (t.child? key).bind fun child => child.find? path := rfl

theorem find?_leaf_cons (i : I) (key : K) (path : List K) : (leaf i n).find? (key :: path) = none := by
  cases n <;> rfl

theorem find?_mapInfo_cons (f : I → I) (t : Trie K I n) (key : K) (path : List K) :
    (t.mapInfo f).find? (key :: path) = t.find? (key :: path) := by
  cases n <;> rfl

theorem find?_map {J : Type} (f : I → J) (t : Trie K I n) (path : List K) :
    (t.map f).find? path = (t.find? path).map f := by
  induction n generalizing path with
  | zero =>
      cases path with
      | nil => rfl
      | cons key path => rfl
  | succ n ih =>
      cases path with
      | nil => rfl
      | cons key path =>
          have hchild : (t.map f).child? key = (t.child? key).map (map f) := by
            show ((Node.children t).map (Table.map (map f))).bind _ = ((Node.children t).bind _).map _
            cases Node.children t with
            | none => rfl
            | some children => exact Table.get?_map (map f) children key
          rw [find?_cons, find?_cons, hchild]
          cases t.child? key with
          | none => rfl
          | some child => exact ih child path

/-- Changes of the infos of a tree that undo each other. -/
theorem map_map_of_find? {J : Type} {f : I → J} {g : J → I} {t : Trie K I n}
    (hback : ∀ path i, t.find? path = some i → g (f i) = i) : (t.map f).map g = t := by
  induction n with
  | zero => exact hback [] t rfl
  | succ n ih =>
      obtain ⟨i, children⟩ := t
      have hinfo : g (f i) = i := hback [] i rfl
      have hchildren : (children.map (Table.map (map f))).map (Table.map (map g)) = children := by
        cases children with
        | none => rfl
        | some children =>
            refine congrArg some (Table.map_map_of_get? fun key child hchild => ih fun path i' hfind => ?_)
            refine hback (key :: path) i' ?_
            show (children.get? key).bind (fun child => child.find? path) = some i'
            rw [hchild]
            exact hfind
      show (⟨g (f i), (children.map (Table.map (map f))).map (Table.map (map g))⟩ : Node K I (Trie K I n)) = ⟨i, children⟩
      rw [hinfo, hchildren]

/-- No node is deeper than the tree. -/
theorem length_le_of_find? {t : Trie K I n} {path : List K} {i : I} (hfind : t.find? path = some i) :
    path.length ≤ n := by
  induction n generalizing path with
  | zero =>
      cases path with
      | nil => exact le_rfl
      | cons key path => cases hfind
  | succ n ih =>
      cases path with
      | nil => exact Nat.zero_le _
      | cons key path =>
          rw [find?_cons, Option.bind_eq_some_iff] at hfind
          obtain ⟨child, _, hchild⟩ := hfind
          exact Nat.succ_le_succ (ih hchild)

/-- The path to a node goes through nodes. -/
theorem find?_isSome_of_append {t : Trie K I n} {path path' : List K}
    (hfind : (t.find? (path ++ path')).isSome = true) : (t.find? path).isSome = true := by
  induction n generalizing path with
  | zero =>
      cases path with
      | nil => rfl
      | cons key path => cases hfind
  | succ n ih =>
      cases path with
      | nil => rfl
      | cons key path =>
          rw [List.cons_append, find?_cons] at hfind
          rw [find?_cons]
          cases hchild : t.child? key with
          | none =>
              rw [hchild] at hfind
              cases hfind
          | some child =>
              rw [hchild] at hfind
              exact ih hfind

/-! ### Storing a child under each of a list of keys -/

/-- Store under each key what is made of the child there and of the value that comes with the key. -/
def putAll (make : Option (Trie K I n) → W → Trie K I n) (entries : List (Sigma fun _ : K => W))
    (t : Trie K I (n + 1)) : Trie K I (n + 1) :=
  entries.foldl (fun t entry => t.putChild entry.1 (make (t.child? entry.1) entry.2)) t

variable (make : Option (Trie K I n) → W → Trie K I n)

theorem info_putAll (entries : List (Sigma fun _ : K => W)) (t : Trie K I (n + 1)) :
    (t.putAll make entries).info = t.info := by
  induction entries generalizing t with
  | nil => rfl
  | cons entry entries ih =>
      rw [putAll, List.foldl_cons, ← putAll, ih]
      rfl

theorem child?_putAll_of_notMem {entries : List (Sigma fun _ : K => W)} {key : K}
    (hkey : key ∉ entries.map Sigma.fst) (t : Trie K I (n + 1)) :
    (t.putAll make entries).child? key = t.child? key := by
  induction entries generalizing t with
  | nil => rfl
  | cons entry entries ih =>
      rw [List.map_cons, List.mem_cons, not_or] at hkey
      rw [putAll, List.foldl_cons, ← putAll, ih hkey.2, child?_putChild, if_neg hkey.1]

/-- With distinct keys each of them is stored once. -/
theorem child?_putAll {entries : List (Sigma fun _ : K => W)} (hnodup : (entries.map Sigma.fst).Nodup)
    {key : K} {value : W} (hmem : ⟨key, value⟩ ∈ entries) (t : Trie K I (n + 1)) :
    (t.putAll make entries).child? key = some (make (t.child? key) value) := by
  induction entries generalizing t with
  | nil => cases hmem
  | cons entry entries ih =>
      rw [List.map_cons, List.nodup_cons] at hnodup
      rw [putAll, List.foldl_cons, ← putAll]
      rcases List.mem_cons.mp hmem with hentry | hmem
      · subst hentry
        rw [child?_putAll_of_notMem make hnodup.1, child?_putChild, if_pos rfl]
      · have hne : key ≠ entry.1 := by
          intro heq
          exact hnodup.1 (heq ▸ List.mem_map_of_mem (f := Sigma.fst) hmem)
        rw [ih hnodup.2 hmem, child?_putChild, if_neg hne]

/-- Going through the children of another tree. -/
theorem child?_putAll_childList {J : Type} {m : Nat}
    (make : Option (Trie K I n) → Trie K J m → Trie K I n) (t : Trie K I (n + 1))
    (source : Trie K J (m + 1)) (key : K) :
    (t.putAll make source.childList).child? key
      = match source.child? key with
        | none => t.child? key
        | some child => some (make (t.child? key) child) := by
  cases hchild : source.child? key with
  | none =>
      apply child?_putAll_of_notMem
      intro hmem
      obtain ⟨⟨key', child⟩, hentry, rfl⟩ := List.mem_map.mp hmem
      rw [mem_childList, hchild] at hentry
      cases hentry
  | some child => exact child?_putAll make source.childList_nodup (mem_childList.mpr hchild) t

/-! ### Storing at a path -/

/-- Change the info at a path, in a fresh leaf if there is no node; `none` if a node above it is missing. -/
def store (fresh : I) (f : I → I) : {n : Nat} → Trie K I n → List K → Option (Trie K I n)
  | _, t, [] => some (t.mapInfo f)
  | 0, _, _ :: _ => none
  | n + 1, t, [key] => some (t.putChild key (((t.child? key).getD (leaf fresh n)).mapInfo f))
  | _ + 1, t, key :: next :: path =>
    (t.child? key).bind fun child => (child.store fresh f (next :: path)).map (t.putChild key)

variable {fresh : I} {f : I → I}

theorem find?_mapInfo (t : Trie K I n) (path : List K) :
    (t.mapInfo f).find? path = if path = [] then some (f t.info) else t.find? path := by
  cases path with
  | nil => simp
  | cons key path => rw [find?_mapInfo_cons, if_neg (List.cons_ne_nil key path)]

/-- **What a store changes.** -/
theorem find?_store {t t' : Trie K I n} {path : List K} (hstore : t.store fresh f path = some t')
    (other : List K) :
    t'.find? other = if other = path then some (f ((t.find? path).getD fresh)) else t.find? other := by
  induction n generalizing path other with
  | zero =>
      cases path with
      | nil =>
          cases hstore
          rw [find?_mapInfo, find?_nil]
          rfl
      | cons key path => cases hstore
  | succ n ih =>
      match path with
      | [] =>
          cases hstore
          rw [find?_mapInfo, find?_nil]
          rfl
      | [key] =>
          cases hstore
          cases other with
          | nil => simp
          | cons key' other =>
              rw [find?_cons, child?_putChild]
              by_cases hkey : key' = key
              · subst key'
                rw [if_pos rfl, Option.bind_some, find?_mapInfo, find?_cons, find?_cons]
                by_cases hother : other = []
                · subst other
                  rw [if_pos rfl, if_pos rfl]
                  cases t.child? key <;> simp
                · rw [if_neg hother, if_neg (by simpa using hother)]
                  cases t.child? key with
                  | none =>
                      obtain ⟨next, rest, rfl⟩ := List.exists_cons_of_ne_nil hother
                      exact find?_leaf_cons fresh next rest
                  | some child => rfl
              · rw [if_neg hkey, if_neg (by simp [hkey]), find?_cons]
      | key :: next :: path =>
          rw [store, Option.bind_eq_some_iff] at hstore
          obtain ⟨child, hchild, hmap⟩ := hstore
          obtain ⟨child', hstore', rfl⟩ := Option.map_eq_some_iff.mp hmap
          cases other with
          | nil => simp
          | cons key' other =>
              rw [find?_cons, child?_putChild]
              by_cases hkey : key' = key
              · subst key'
                rw [if_pos rfl, Option.bind_some, ih hstore', find?_cons, find?_cons, hchild]
                simp
              · rw [if_neg hkey, if_neg (by simp [hkey]), find?_cons]

/-- A stored node is there. -/
theorem isSome_find?_store {t t' : Trie K I n} {path : List K} (hstore : t.store fresh f path = some t') :
    (t'.find? path).isSome = true := by
  rw [find?_store hstore, if_pos rfl]
  rfl

/-- **When a store finds its place**: the node above is there. -/
theorem store_isSome (fresh : I) (f : I → I) {t : Trie K I n} {path : List K} (hlength : path.length ≤ n)
    (habove : (t.find? path.dropLast).isSome = true) : (t.store fresh f path).isSome = true := by
  induction n generalizing path with
  | zero =>
      obtain rfl := List.eq_nil_of_length_eq_zero (Nat.le_zero.mp hlength)
      rfl
  | succ n ih =>
      match path with
      | [] => rfl
      | [key] => rfl
      | key :: next :: path =>
          rw [List.dropLast_cons_cons, find?_cons] at habove
          rw [store]
          cases hchild : t.child? key with
          | none =>
              rw [hchild] at habove
              cases habove
          | some child =>
              rw [hchild] at habove
              rw [Option.bind_some, Option.isSome_map]
              exact ih (Nat.le_of_succ_le_succ hlength) habove

theorem store_isSome_of_find? (fresh : I) (f : I → I) {t : Trie K I n} {path : List K}
    (hfind : (t.find? path).isSome = true) : (t.store fresh f path).isSome = true := by
  obtain ⟨i, hi⟩ := Option.isSome_iff_exists.mp hfind
  apply store_isSome fresh f (length_le_of_find? hi)
  rcases List.eq_nil_or_concat path with rfl | ⟨above, last, rfl⟩
  · exact hfind
  · rw [List.concat_eq_append, List.dropLast_concat]
    rw [List.concat_eq_append] at hfind
    exact find?_isSome_of_append hfind

end Trie

end Armore.Lib
