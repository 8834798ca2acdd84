import FiniteVolume.Command
import FiniteVolume.Ordered.Set
import FiniteVolume.Proofs.Expression.Phrase
import Mathlib.Data.List.Induction
import Mathlib.Data.List.TakeDrop

/-!
The text of a command says its keyword and its options in order. Nothing is escaped: a keyword and a
key end at the next space, a value at the next quote.
-/
namespace FiniteVolume

/-- A table lists each of its keys with the value under it. -/
theorem Table.toList_eq_filterMap {κ ν : Type} [DecidableEq κ] (t : Table κ ν) :
    t.toList = t.keys.filterMap fun k => (t.get? k).map (k, ·) := by
  have listed : ∀ e ∈ t.entries, (t.get? e.1).map (e.1, ·) = some e := by
    intro e member
    rw [get?_eq_some_iff.mpr member, Option.map_some]
  rw [keys, List.filterMap_map]
  exact ((List.filterMap_congr listed).trans List.filterMap_some).symm

namespace Command

/-! ## Commands that are built up -/

inductive Call where
  | option (key value : String)
  | slot (key : String) (value : Option String)

def Call.key : Call → String
  | option key _ | slot key _ => key

def Call.value : Call → String
  | option _ value => value
  | slot _ value => value.getD ""

def Call.apply (c : Command) : Call → Command
  | option key value => c.option key value
  | slot key value => c.slot key value

theorem Call.apply_eq (c : Command) (call : Call) : call.apply c = c.option call.key call.value := by
  cases call <;> rfl

def build (name : String) (calls : List Call) : Command := calls.foldl Call.apply { name }

/-- The value that a key was given last, if it was set. -/
def lastValue? (calls : List Call) (key : String) : Option String :=
  (calls.reverse.find? (·.key = key)).map Call.value

/-- Each key that was set, where it was set first, with the value that it was given last. -/
def settings (calls : List Call) : List (String × String) :=
  (OrderedSet.ofList (calls.map Call.key)).elems.filterMap fun key =>
    (lastValue? calls key).map (key, ·)

theorem build_concat (name : String) (calls : List Call) (call : Call) :
    build name (calls ++ [call]) = (build name calls).option call.key call.value := by
  rw [build, List.foldl_concat, Call.apply_eq]
  rfl

theorem name_build (name : String) (calls : List Call) : (build name calls).name = name := by
  induction calls using List.reverseRecOn with
  | nil => rfl
  | append_singleton calls call ih =>
    rw [build_concat]
    exact ih

theorem keys_build (name : String) (calls : List Call) :
    (build name calls).options.keys = (OrderedSet.ofList (calls.map Call.key)).elems := by
  induction calls using List.reverseRecOn with
  | nil => rfl
  | append_singleton calls call ih =>
    have more : OrderedSet.ofList ((calls ++ [call]).map Call.key) =
        (OrderedSet.ofList (calls.map Call.key)).insert call.key := by
      simp [OrderedSet.ofList, OrderedSet.insertAll]
    rw [build_concat, more, OrderedSet.elems_insert, ← ih]
    exact Table.keys_insert ..

theorem get?_build (name : String) (calls : List Call) (key : String) :
    (build name calls).options.get? key = lastValue? calls key := by
  induction calls using List.reverseRecOn with
  | nil => rfl
  | append_singleton calls call ih =>
    have latest : lastValue? (calls ++ [call]) key =
        if key = call.key then some call.value else lastValue? calls key := by
      rw [lastValue?, List.reverse_concat, List.find?_cons]
      by_cases same : key = call.key
      · simp [same]
      · simp [same, Ne.symm same, lastValue?]
    rw [build_concat, latest, ← ih]
    exact Table.get?_insert ..

theorem toList_build (name : String) (calls : List Call) :
    (build name calls).options.toList = settings calls := by
  rw [Table.toList_eq_filterMap, keys_build]
  exact congrArg (List.filterMap · _) (funext fun key => by rw [get?_build])

/-! ## Reading -/

def readOption? (text : List Char) : Option ((String × String) × List Char) :=
  match text with
  | ' ' :: '-' :: text =>
    match text.span (· != ' ') with
    | (key, ' ' :: '"' :: text) =>
      match text.span (· != '"') with
      | (value, '"' :: rest) => some ((String.ofList key, String.ofList value), rest)
      | _ => none
    | _ => none
  | _ => none

/-- Reading an option uses characters up, so that all options of a text are read. -/
theorem length_readOption? {text rest : List Char} {setting : String × String}
    (read : readOption? text = some (setting, rest)) : rest.length < text.length := by
  unfold readOption? at read
  split at read
  next text =>
    split at read
    next key quoted atKey =>
      split at read
      next value rest atValue =>
        cases read
        rw [List.span_eq_takeWhile_dropWhile] at atKey atValue
        have afterKey := (List.dropWhile_suffix (l := text) (· != ' ')).length_le
        have afterValue := (List.dropWhile_suffix (l := quoted) (· != '"')).length_le
        rw [(Prod.mk.inj atKey).2] at afterKey
        rw [(Prod.mk.inj atValue).2] at afterValue
        simp only [List.length_cons] at afterKey afterValue ⊢
        omega
      · cases read
    · cases read
  · cases read

def readOptions? (text : List Char) : Option (List (String × String)) :=
  if text = [] then some []
  else match _read : readOption? text with
    | none => none
    | some (setting, rest) => (readOptions? rest).map (setting :: ·)
termination_by text.length
decreasing_by exact length_readOption? _read

/-- The keyword and the options that a text says. -/
def read? (text : String) : Option (String × List (String × String)) :=
  match "COMMAND ".toList.isPrefixOf? text.toList with
  | none => none
  | some text =>
    match text.span (· != ' ') with
    | (name, options) => (readOptions? options).map (String.ofList name, ·)

theorem readOptions?_of_readOption? {text rest : List Char} {setting : String × String}
    (read : readOption? text = some (setting, rest)) :
    readOptions? text = (readOptions? rest).map (setting :: ·) := by
  have filled : text ≠ [] := by
    rintro rfl
    cases read
  rw [readOptions?, if_neg filled]
  split
  next unread => cases unread.symm.trans read
  next setting' rest' same =>
    obtain ⟨rfl, rfl⟩ := Prod.mk.inj (Option.some.inj (same.symm.trans read))
    rfl

/-! ## What is read is what was written -/

theorem span_append {stop : Char} {word rest : List Char} (free : stop ∉ word)
    (stops : ∀ c ∈ rest.head?, c = stop) : (word ++ rest).span (· != stop) = (word, rest) := by
  have inside : ∀ c ∈ word, (c != stop) = true := fun c member =>
    bne_iff_ne.mpr fun same => free (same ▸ member)
  have outside : ∀ c ∈ rest.head?, (c != stop) = false := fun c head => by simp [stops c head]
  have nothing : rest.dropWhile (· != stop) = rest := by
    cases rest with
    | nil => rfl
    | cons c rest => simp [stops c rfl]
  rw [List.span_eq_takeWhile_dropWhile, Phrase.takeWhile_append inside outside,
    List.dropWhile_append_of_pos inside, nothing]

theorem toList_optionText (key value : String) : (optionText key value).toList =
    ' ' :: '-' :: (key.toList ++ ' ' :: '"' :: (value.toList ++ ['"'])) := by
  simp [optionText]

/-- Whatever else stands in the quotes, and whatever follows, an option is read to its last quote. -/
theorem readOption?_optionText {key value : String} (unspaced : ' ' ∉ key.toList)
    (unquoted : '"' ∉ value.toList) (rest : List Char) :
    readOption? ((optionText key value).toList ++ rest) = some ((key, value), rest) := by
  have parts : (optionText key value).toList ++ rest =
      ' ' :: '-' :: (key.toList ++ ' ' :: '"' :: (value.toList ++ '"' :: rest)) := by
    simp [toList_optionText]
  have keyEnd (text : List Char) : (key.toList ++ ' ' :: text).span (· != ' ') =
      (key.toList, ' ' :: text) := span_append unspaced (by simp)
  have valueEnd : (value.toList ++ '"' :: rest).span (· != '"') = (value.toList, '"' :: rest) :=
    span_append unquoted (by simp)
  rw [parts, readOption?]
  simp only [keyEnd, valueEnd, String.ofList_toList]

def optionsText (options : List (String × String)) : String :=
  String.join (options.map fun (key, value) => optionText key value)

theorem toList_optionsText_cons (o : String × String) (options : List (String × String)) :
    (optionsText (o :: options)).toList =
      (optionText o.1 o.2).toList ++ (optionsText options).toList := by
  rw [← String.toList_append]
  simp [optionsText]

theorem head?_optionsText (options : List (String × String)) :
    ∀ c ∈ (optionsText options).toList.head?, c = ' ' := by
  cases options with
  | nil => simp [optionsText]
  | cons o options =>
    rw [toList_optionsText_cons, toList_optionText]
    simp

theorem readOptions?_optionsText {options : List (String × String)}
    (unspaced : ∀ o ∈ options, ' ' ∉ o.1.toList) (unquoted : ∀ o ∈ options, '"' ∉ o.2.toList) :
    readOptions? (optionsText options).toList = some options := by
  induction options with
  | nil => simp [optionsText, readOptions?]
  | cons o rest ih =>
    have first := readOption?_optionText (unspaced o List.mem_cons_self)
      (unquoted o List.mem_cons_self) (optionsText rest).toList
    have later := ih (fun o member => unspaced o (List.mem_cons_of_mem _ member))
      (fun o member => unquoted o (List.mem_cons_of_mem _ member))
    rw [toList_optionsText_cons, readOptions?_of_readOption? first, later, Option.map_some]

theorem read?_text {c : Command} (word : ' ' ∉ c.name.toList)
    (unspaced : ∀ o ∈ c.options.toList, ' ' ∉ o.1.toList)
    (unquoted : ∀ o ∈ c.options.toList, '"' ∉ o.2.toList) :
    read? c.text = some (c.name, c.options.toList) := by
  have parts : c.text.toList =
      "COMMAND ".toList ++ (c.name.toList ++ (optionsText c.options.toList).toList) := by
    simp [text, optionsText]
  have keyword : "COMMAND ".toList.isPrefixOf? c.text.toList =
      some (c.name.toList ++ (optionsText c.options.toList).toList) :=
    List.isPrefixOf?_eq_some_iff_append_eq.mpr parts.symm
  simp only [read?, keyword, span_append word (head?_optionsText _),
    readOptions?_optionsText unspaced unquoted, Option.map_some, String.ofList_toList]

/-- The conditions under which a sequence of calls leaves no doubt where its texts end. Values may
hold spaces, dashes and what looks like an option. -/
structure Plain (name : String) (calls : List Call) : Prop where
  name : ' ' ∉ name.toList
  keys : ∀ call ∈ calls, ' ' ∉ call.key.toList
  values : ∀ call ∈ calls, '"' ∉ call.value.toList

theorem mem_of_lastValue? {calls : List Call} {key value : String}
    (last : lastValue? calls key = some value) :
    ∃ call ∈ calls, call.key = key ∧ call.value = value := by
  obtain ⟨call, found, same⟩ := Option.map_eq_some_iff.mp last
  exact ⟨call, List.mem_reverse.mp (List.mem_of_find?_eq_some found),
    by simpa using List.find?_some found, same⟩

theorem mem_of_settings {calls : List Call} {o : String × String} (member : o ∈ settings calls) :
    ∃ call ∈ calls, call.key = o.1 ∧ call.value = o.2 := by
  obtain ⟨key, -, same⟩ := List.mem_filterMap.mp member
  obtain ⟨value, last, rfl⟩ := Option.map_eq_some_iff.mp same
  exact mem_of_lastValue? last

theorem Plain.read?_build {name : String} {calls : List Call} (plain : Plain name calls) :
    read? (build name calls).text = some (name, settings calls) := by
  have unspaced : ∀ o ∈ settings calls, ' ' ∉ o.1.toList := by
    intro o member
    obtain ⟨call, called, key, -⟩ := mem_of_settings member
    exact key ▸ plain.keys call called
  have unquoted : ∀ o ∈ settings calls, '"' ∉ o.2.toList := by
    intro o member
    obtain ⟨call, called, -, value⟩ := mem_of_settings member
    exact value ▸ plain.values call called
  rw [← toList_build name calls] at unspaced unquoted
  have read := read?_text (c := build name calls) (by rw [name_build]; exact plain.name) unspaced
    unquoted
  rwa [name_build, toList_build] at read

theorem build_ext {name name' : String} {calls calls' : List Call} (names : name = name')
    (same : settings calls = settings calls') : build name calls = build name' calls' := by
  have keywords : (build name calls).name = (build name' calls').name := by
    rw [name_build, name_build, names]
  have options : (build name calls).options = (build name' calls').options :=
    Table.ext_entries ((toList_build ..).trans (same.trans (toList_build ..).symm))
  exact congrArg₂ Command.mk keywords options

/-- A command is read back from its text: the keyword, and each key at the position of the call that
set it first with the value of the call that set it last. Two commands with one text are the same,
the order of their options included. -/
theorem text_determines_command {name name' : String} {calls calls' : List Call}
    (plain : Plain name calls) (plain' : Plain name' calls') :
    (build name calls).name = name ∧ (build name calls).options.toList = settings calls ∧
    read? (build name calls).text = some (name, settings calls) ∧
    ((build name calls).text = (build name' calls').text ↔
      build name calls = build name' calls') := by
  refine ⟨name_build .., toList_build .., plain.read?_build, fun same => ?_, congrArg text⟩
  have read := plain.read?_build.symm.trans (same ▸ plain'.read?_build)
  obtain ⟨names, options⟩ := Prod.mk.inj (Option.some.inj read)
  exact build_ext names options

/-- A value that looks like further options, an empty slot and a key that is set twice. -/
theorem text_determines_command_of_lookalike :
    let calls := [Call.option "name" "first", .option "device" "d -region r", .slot "region" none,
      .option "name" "last"]
    Plain "equation" calls ∧
    read? (build "equation" calls).text =
      some ("equation", [("name", "last"), ("device", "d -region r"), ("region", "")]) ∧
    ∀ name' calls', Plain name' calls' →
      ((build "equation" calls).text = (build name' calls').text ↔
        build "equation" calls = build name' calls') := by
  intro calls
  have plain : Plain "equation" calls := ⟨by decide, by decide, by decide⟩
  exact ⟨plain, (text_determines_command plain plain).2.2.1,
    fun _ _ plain' => (text_determines_command plain plain').2.2.2⟩

end Command

end FiniteVolume
