import FiniteVolume.Side

/-!
Names of derived models.

A derivative joins model and variable by a colon. A suffix after the last `@` selects an end of an
edge, a corner of an element edge or a side of an interface. `Suffix.split?` takes a name apart at
that place and `Suffix.apply` puts it together again.
-/
namespace FiniteVolume

inductive Suffix where
  | edgeEnd (side : Side)
  | elementCorner (corner : Fin 4)
  | interfaceSide (side : Side)
  deriving Repr, DecidableEq

namespace Suffix

def ends : List Suffix := Side.both.map edgeEnd

/-- The selectors of the corners of a tetrahedron; the first three are those of a triangle. -/
def corners : List Suffix := (List.finRange 4).map elementCorner

def sides : List Suffix := Side.both.map interfaceSide

def all : List Suffix := ends ++ corners ++ sides

inductive Kind where
  | edgeEnd
  | elementCorner
  | interfaceSide
  deriving Repr, DecidableEq

def Kind.mark : Kind → String
  | edgeEnd => "n"
  | elementCorner => "en"
  | interfaceSide => "r"

/-- The name of the part of `base` with a given number, whether there is such a part or not. -/
def Kind.apply (k : Kind) (index : Nat) (base : String) : String :=
  base ++ "@" ++ k.mark ++ toString index

def kind : Suffix → Kind
  | edgeEnd _ => .edgeEnd
  | elementCorner _ => .elementCorner
  | interfaceSide _ => .interfaceSide

def index : Suffix → Nat
  | edgeEnd side | interfaceSide side => side.index
  | elementCorner corner => corner

def tag (s : Suffix) : String := s.kind.mark ++ toString s.index

def text (s : Suffix) : String := "@" ++ s.tag

def apply (s : Suffix) (base : String) : String := base ++ s.text

/-- The characters before and after the last `@`, if there is one. -/
def splitLast : List Char → Option (List Char × List Char)
  | [] => none
  | c :: rest =>
    match splitLast rest with
    | some (before, after) => some (c :: before, after)
    | none => if c = '@' then some ([], rest) else none

/-- The number that is written with one digit, among those that parts have. -/
def number? : List Char → Option Nat
  | ['0'] => some 0
  | ['1'] => some 1
  | ['2'] => some 2
  | ['3'] => some 3
  | _ => none

/-- The selector that follows an `@`: the letters of its kind, then a digit in range for them. -/
def ofTag? : List Char → Option Suffix
  | 'e' :: 'n' :: digit => (number? digit).bind (corners[·]?)
  | 'n' :: digit => (number? digit).bind (ends[·]?)
  | 'r' :: digit => (number? digit).bind (sides[·]?)
  | _ => none

/-- The base and the selector of a name. A name without a selector, or with nothing before it, has
none. -/
def split? (name : String) : Option (String × Suffix) :=
  match splitLast name.toList with
  | none => none
  | some (base, tail) =>
    if base.isEmpty then none else (ofTag? tail).map fun s => (String.ofList base, s)

/-- Tags hold no mark of their own, and are read back. -/
theorem ofTag?_tag (s : Suffix) : '@' ∉ s.tag.toList ∧ ofTag? s.tag.toList = some s := by
  cases s with
  | edgeEnd side => cases side <;> decide
  | elementCorner corner =>
    match corner with
    | 0 => decide
    | 1 => decide
    | 2 => decide
    | 3 => decide
  | interfaceSide side => cases side <;> decide

theorem toList_tag_of_number? {digit : List Char} {n : Nat} (read : number? digit = some n) {s : Suffix} :
    (corners[n]? = some s → s.tag.toList = 'e' :: 'n' :: digit) ∧
    (ends[n]? = some s → s.tag.toList = 'n' :: digit) ∧
    (sides[n]? = some s → s.tag.toList = 'r' :: digit) := by
  unfold number? at read
  split at read <;> cases read <;>
    exact ⟨fun found => by cases found; decide, fun found => by cases found <;> decide,
      fun found => by cases found <;> decide⟩

theorem tag_of_ofTag? {tail : List Char} {s : Suffix} (read : ofTag? tail = some s) :
    s.tag.toList = tail := by
  unfold ofTag? at read
  split at read
  · obtain ⟨n, digit, found⟩ := Option.bind_eq_some_iff.mp read
    exact (toList_tag_of_number? digit).1 found
  · obtain ⟨n, digit, found⟩ := Option.bind_eq_some_iff.mp read
    exact (toList_tag_of_number? digit).2.1 found
  · obtain ⟨n, digit, found⟩ := Option.bind_eq_some_iff.mp read
    exact (toList_tag_of_number? digit).2.2 found
  · cases read

theorem splitLast_eq_some {name before after : List Char}
    (split : splitLast name = some (before, after)) : name = before ++ '@' :: after := by
  induction name generalizing before with
  | nil => cases split
  | cons c rest ih =>
    rw [splitLast] at split
    cases later : splitLast rest with
    | some parts =>
      rw [later] at split
      cases split
      rw [ih later]
      rfl
    | none =>
      rw [later] at split
      by_cases mark : c = '@'
      · simp only [mark, if_true] at split
        cases split
        rw [mark]
        rfl
      · simp [mark] at split

theorem apply_of_split? {name base : String} {s : Suffix} (split : split? name = some (base, s)) :
    s.apply base = name := by
  unfold split? at split
  split at split
  · cases split
  next before tail parts =>
    split at split
    · cases split
    · obtain ⟨found, read, same⟩ := Option.map_eq_some_iff.mp split
      obtain ⟨rfl, rfl⟩ := Prod.mk.inj same
      rw [← String.toList_inj, splitLast_eq_some parts, ← tag_of_ofTag? read]
      simp [apply, text]

theorem splitLast_eq_none {tail : List Char} (plain : '@' ∉ tail) : splitLast tail = none := by
  induction tail with
  | nil => rfl
  | cons c rest ih =>
    rw [List.mem_cons, not_or] at plain
    obtain ⟨apart, later⟩ := plain
    rw [splitLast, ih later]
    exact if_neg (Ne.symm apart)

theorem splitLast_append (before : List Char) {tail : List Char} (plain : '@' ∉ tail) :
    splitLast (before ++ '@' :: tail) = some (before, tail) := by
  induction before with
  | nil => simp [splitLast, splitLast_eq_none plain]
  | cons c rest ih => rw [List.cons_append, splitLast, ih]

/-- A selector of a part of something named is taken off again. -/
theorem split?_apply (s : Suffix) {base : String} (named : base ≠ "") :
    split? (s.apply base) = some (base, s) := by
  obtain ⟨plain, read⟩ := s.ofTag?_tag
  have parts : splitLast (s.apply base).toList = some (base.toList, s.tag.toList) := by
    have written : (s.apply base).toList = base.toList ++ '@' :: s.tag.toList := by
      simp [apply, text]
    rw [written, splitLast_append _ plain]
  have filled : base.toList.isEmpty = false := by
    simpa using named
  rw [split?, parts]
  simp [filled, read]

end Suffix

/-- Name of the derivative of `model` with respect to the solution variable `var`. -/
def derivativeName (model var : String) : String := model ++ ":" ++ var

end FiniteVolume
