import Armore.Lib.Text

/-!
# `getopt`

The command line of a program as `getopt` of the GNU library reads it: letters behind a dash are options, several
of them may share a word, an option that takes an argument has the rest of its word or else the next word, and the
words that are no options are moved behind the options. `--` ends the options. What a caller sees is the order of
the options and, apart from it, the order of the other words; here both are in one list of items.

A command line that is written item by item is read as these items, in whatever order they stand.
-/

namespace Armore.Lib.Getopt

/-! ### The option string -/

/-- What the option string says of a letter. An optional argument, two colons, is not treated. -/
inductive Kind
  | unknown
  | flag
  | argument
  deriving DecidableEq

/-- A letter of the string is an option, and takes an argument when a colon follows it. -/
def kindOf (optstring : Text) (c : Char) : Kind :=
  if c = ':' ∨ c = ';' then .unknown
  else
    match optstring.dropWhile (· ≠ c) with
    | [] => .unknown
    | _ :: ':' :: _ => .argument
    | _ :: _ => .flag

/-! ### The command line -/

/-- What a call of `getopt` returns, or a word it leaves: an option with its argument, the question mark for a letter
that is unknown or lacks its argument, or another word. -/
inductive Item
  | option (c : Char) (optarg : Option Text)
  | bad (c : Char)
  | operand (word : Text)
  deriving DecidableEq

variable (kind : Char → Kind)

/-- The letters of one word. The last of them may take the next word for its argument. -/
def letters : Text → List Item × Option Char
  | [] => ([], none)
  | c :: rest =>
    match kind c with
    | .unknown => (.bad c :: (letters rest).1, (letters rest).2)
    | .flag => (.option c none :: (letters rest).1, (letters rest).2)
    | .argument => if rest = [] then ([], some c) else ([.option c (some rest)], none)

def getopt : List Text → List Item
  | [] => []
  | ['-', '-'] :: argv => argv.map .operand
  | ('-' :: c :: cs) :: argv =>
    match letters kind (c :: cs) with
    | (items, none) => items ++ getopt argv
    | (items, some last) =>
      match argv with
      | [] => items ++ [.bad last]
      | optarg :: argv => items ++ .option last (some optarg) :: getopt argv
  | word :: argv => .operand word :: getopt argv

/-- The words from `optind` on when `getopt` has returned `-1`. -/
def operands (items : List Item) : List Text :=
  items.filterMap fun item =>
    match item with
    | .operand word => some word
    | _ => none

/-! ### Writing -/

/-- `getopt` takes the word for an option. -/
def Dashed : Text → Prop
  | '-' :: _ :: _ => True
  | _ => False

instance : DecidablePred Dashed
  | [] => isFalse id
  | [_] => isFalse fun h => by simp [Dashed] at h
  | c :: d :: rest =>
    if h : c = '-' then isTrue (by rw [h]; trivial) else isFalse (by simp [Dashed, h])

namespace Item

/-- An option of its kind, with an argument where it takes one, or a word that is no option. -/
def Proper : Item → Prop
  | option c none => kind c = .flag ∧ c ≠ '-'
  | option c (some _) => kind c = .argument ∧ c ≠ '-'
  | bad _ => False
  | operand word => ¬ Dashed word

/-- Its words: an option stands alone, its argument in the next word. -/
def written : Item → List Text
  | option c none => [['-', c]]
  | option c (some optarg) => [['-', c], optarg]
  | bad c => [['-', c]]
  | operand word => [word]

end Item

variable {kind}

theorem getopt_operand {word : Text} (hword : ¬ Dashed word) (argv : List Text) :
    getopt kind (word :: argv) = .operand word :: getopt kind argv := by
  rw [getopt.eq_def]
  split
  · rename_i heq
    exact nomatch heq
  · rename_i heq
    obtain ⟨rfl, -⟩ := List.cons.inj heq
    exact absurd trivial hword
  · rename_i heq
    obtain ⟨rfl, -⟩ := List.cons.inj heq
    exact absurd trivial hword
  · rename_i heq
    obtain ⟨rfl, rfl⟩ := List.cons.inj heq
    rfl

theorem getopt_flag {c : Char} (hkind : kind c = .flag) (hdash : c ≠ '-') (argv : List Text) :
    getopt kind (['-', c] :: argv) = .option c none :: getopt kind argv := by
  have hletters : letters kind [c] = ([.option c none], none) := by
    rw [letters, hkind]
    rfl
  rw [getopt, hletters]
  · rfl
  · rintro rfl
    exact absurd rfl hdash

theorem getopt_argument {c : Char} (hkind : kind c = .argument) (hdash : c ≠ '-') (optarg : Text) (argv : List Text) :
    getopt kind (['-', c] :: optarg :: argv) = .option c (some optarg) :: getopt kind argv := by
  have hletters : letters kind [c] = ([], some c) := by
    rw [letters, hkind]
    rfl
  rw [getopt, hletters]
  · rfl
  · rintro rfl
    exact absurd rfl hdash

/-- What is written item by item is read item by item. -/
theorem getopt_flatMap_written {items : List Item} (hitems : ∀ item ∈ items, item.Proper kind) :
    getopt kind (items.flatMap Item.written) = items := by
  induction items with
  | nil => rfl
  | cons item items ih =>
      obtain ⟨hitem, hrest⟩ := List.forall_mem_cons.mp hitems
      rw [List.flatMap_cons]
      cases item with
      | option c optarg =>
          cases optarg with
          | none => exact (getopt_flag hitem.1 hitem.2 _).trans (congrArg _ (ih hrest))
          | some optarg => exact (getopt_argument hitem.1 hitem.2 optarg _).trans (congrArg _ (ih hrest))
      | bad c => exact hitem.elim
      | operand word => exact (getopt_operand hitem _).trans (congrArg _ (ih hrest))

example : getopt (kindOf "ab:".toList) ["x".toList, "-abc".toList, "-b".toList, "y".toList, "--".toList, "-a".toList]
    = [.operand "x".toList, .option 'a' none, .option 'b' (some "c".toList), .option 'b' (some "y".toList),
      .operand "-a".toList] := by decide +kernel

end Armore.Lib.Getopt
