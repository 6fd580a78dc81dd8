import Mathlib.Data.Finset.Dedup
import RemoteObjects.Marks
import RemoteObjects.Repc.SignatureReferences

/-! Which interfaces the bytes that are fed for a class tell apart. -/
namespace RemoteObjects.Repc
open Marks

section Statement

/-- No character is one of the first control characters. -/
def Printable (s : QString) : Prop := ∀ c ∈ s, 4 ≤ c.toNat

instance (s : QString) : Decidable (Printable s) := List.decidableBAll (fun c : Char => 4 ≤ c.toNat) s

def ASTFunction.Printable (f : ASTFunction) : Prop :=
  Repc.Printable f.name ∧ Repc.Printable f.returnType ∧
    ∀ param ∈ f.params, Repc.Printable param.name ∧ Repc.Printable param.type

instance (f : ASTFunction) : Decidable f.Printable := inferInstanceAs (Decidable (_ ∧ _ ∧ _))

def ASTClass.Printable (c : ASTClass) : Prop :=
  Repc.Printable c.name ∧ (∀ p ∈ c.properties, Repc.Printable p.name ∧ Repc.Printable p.type) ∧
    ∀ f ∈ c.signalsList ++ c.slotsList, f.Printable

instance (c : ASTClass) : Decidable c.Printable := inferInstanceAs (Decidable (_ ∧ _ ∧ _))

/-- A class with the file in which it is declared. -/
structure RepClass where
  file : RepFile
  position : Nat
  cls : ASTClass
  declared : file[position]? = some ⟨.global, .cls cls⟩
  printable : cls.Printable

/-- What a replica and a source must agree on. -/
structure Interface where
  properties : List (QString × QString × ASTProperty.Modifier)
  signalsList : List ASTFunction
  slotsList : List ASTFunction
  enums : List (List ASTEnumParam)
  roles : List (Finset QString)
deriving DecidableEq

/-- The enumerators of the enum that a type name means. -/
def RepFile.enumerators (file : RepFile) : Datum → Option (List ASTEnumParam)
  | .plainType className type =>
    match file.find? fun d => d.cppName = file.meant className type with
    | some ⟨_, .enum e⟩ => some e.params
    | _ => none
  | _ => none

namespace RepClass
variable (sha : Sha1) (a b : RepClass)

def interface : Interface where
  properties := a.cls.properties.map fun p => (p.name, p.type, p.modifier.interface)
  signalsList := a.cls.signalsList
  slotsList := a.cls.slotsList
  enums := (SignedType.cls a.cls).signature_impl.filterMap a.file.enumerators
  roles := a.cls.modelMetadata.map fun m => m.roles.toFinset

def fed : Fed sha := checksumInput sha a.file.types a.position

/-- The modifiers and qualifiers, and what is fed between them. -/
def pieces : List (Fed sha ⊕ Nat) :=
  (SignedType.cls a.cls).signature_impl.map fun datum =>
    match datum with
    | .enumerator value => .inr value
    | datum => .inl (Table.data (signatures sha (a.file.types.take a.position)) datum)

def marks : Outline (UInt8 ⊕ sha.Digest) Nat := outline (a.pieces sha)

/-- Different interfaces lead to different bytes. -/
def ToldApart : Prop := a.interface ≠ b.interface → a.fed sha ≠ b.fed sha

end RepClass

end Statement

section Data
variable {sha : Sha1} {c : ASTClass} {table : Table sha}

/-- A symbol that begins no enumerator in memory. -/
def isMark : UInt8 ⊕ sha.Digest → Bool
  | .inl b => b < 4
  | .inr _ => false

def markOf (value : Nat) : Fed sha := (int32 value).map .inl

theorem latin1_ge {ch : Char} (visible : 4 ≤ ch.toNat) : ∀ b ∈ latin1 ch, ¬ b < 4 := by
  intro b mem
  unfold latin1 at mem
  split at mem
  · rename_i small
    cases List.mem_singleton.mp mem
    rw [UInt8.lt_iff_toNat_lt, Nat.toUInt8_eq, UInt8.toNat_ofNat', Nat.mod_eq_of_lt small]
    exact Nat.not_lt.mpr visible
  · split at mem
    · cases List.mem_singleton.mp mem
      decide
    · rcases List.mem_cons.mp mem with rfl | mem
      · decide
      · cases List.mem_singleton.mp mem
        decide

theorem toLatin1_ge {s : QString} (visible : Printable s) : ∀ b ∈ toLatin1 s, ¬ b < 4 := by
  intro b mem
  obtain ⟨ch, among, of_ch⟩ := List.mem_flatMap.mp mem
  exact latin1_ge (visible ch among) b of_ch

/-- What is fed as text has no symbol with which an enumerator begins. -/
def Datum.Visible : Datum → Prop
  | bytes b => ∀ x ∈ b, ¬ x < 4
  | enumerator value => value < 4
  | plainType _ type => Printable type
  | signature _ => True

theorem visible_text {s : QString} (visible : Printable s) : (text s).Visible := toLatin1_ge visible

theorem mem_of_behindLast {s rest : QString} (found : behindLast s = some rest) : ∀ ch ∈ rest, ch ∈ s := by
  induction s with
  | nil => cases found
  | cons c s ih =>
    unfold behindLast at found
    split at found
    · rename_i later
      cases found
      exact fun ch mem => List.mem_cons_of_mem _ (ih later ch mem)
    · split at found
      · cases found
        exact fun ch mem => List.mem_cons_of_mem _ (List.mem_cons_of_mem _ mem)
      · cases found

theorem isMark_spelled {s : QString} (visible : Printable s) {x : UInt8 ⊕ sha.Digest}
    (mem : x ∈ (toLatin1 s).map (Sum.inl : UInt8 → UInt8 ⊕ sha.Digest)) : isMark x = false := by
  obtain ⟨b, among, rfl⟩ := List.mem_map.mp mem
  exact decide_eq_false (toLatin1_ge visible b among)

theorem isMark_data {datum : Datum} (visible : datum.Visible) (no_mark : ∀ value, datum ≠ .enumerator value) :
    ∀ x ∈ table.data datum, isMark x = false := by
  intro x mem
  cases datum with
  | bytes b =>
    obtain ⟨y, among, rfl⟩ := List.mem_map.mp mem
    exact decide_eq_false (visible y among)
  | enumerator value => exact absurd rfl (no_mark value)
  | signature key =>
    obtain ⟨digest, -, rfl⟩ := List.mem_map.mp mem
    rfl
  | plainType className type =>
    rw [Table.data, Table.plainTypeData] at mem
    split at mem
    · cases List.mem_singleton.mp mem
      rfl
    · split at mem
      · rename_i rest found
        have inside : Printable rest := fun ch of_rest => visible ch (List.mem_of_mem_tail (mem_of_behindLast found ch of_rest))
        split at mem
        · cases List.mem_singleton.mp mem
          rfl
        · exact isMark_spelled inside mem
      · exact isMark_spelled visible mem

theorem mem_of_tokensFrom {token s found : QString} (mem : found ∈ tokensFrom token s) :
    ∀ ch ∈ found, ch ∈ token ∨ ch ∈ s := by
  induction s generalizing token with
  | nil =>
    unfold tokensFrom at mem
    split at mem
    · cases mem
    · cases List.mem_singleton.mp mem
      exact fun ch here => .inl here
  | cons c s ih =>
    unfold tokensFrom at mem
    intro ch here
    split at mem
    · split at mem
      · exact (ih mem ch here).elim (fun none_here => nomatch none_here) fun later => .inr (List.mem_cons_of_mem _ later)
      · rcases List.mem_cons.mp mem with rfl | later
        · exact .inl here
        · exact (ih later ch here).elim (fun none_here => nomatch none_here) fun later => .inr (List.mem_cons_of_mem _ later)
    · rcases ih mem ch here with before | later
      · rcases List.mem_append.mp before with before | last
        · exact .inl before
        · exact .inr (List.mem_singleton.mp last ▸ List.mem_cons_self)
      · exact .inr (List.mem_cons_of_mem _ later)

theorem visible_typeData {type className : QString} (visible : Printable type) :
    ∀ datum ∈ typeData type className, datum.Visible := by
  intro datum mem
  unfold typeData at mem
  split at mem
  · obtain ⟨token, among, rfl⟩ := List.mem_map.mp mem
    exact fun ch here => visible ch ((mem_of_tokensFrom among ch here).elim (fun none_here => nomatch none_here) id)
  · cases List.mem_singleton.mp mem
    exact visible

theorem variableType_lt (param : ASTDeclaration) : param.variableType < 4 := by
  unfold ASTDeclaration.variableType
  split <;> split <;> omega

theorem modifier_lt (m : ASTProperty.Modifier) : m.interface.value < 4 := by
  cases m <;> decide

theorem visible_functionData {f : ASTFunction} {className : QString} (visible : f.Printable) :
    ∀ datum ∈ functionData className f, datum.Visible := by
  obtain ⟨name, returnType, params⟩ := visible
  intro datum mem
  rcases List.mem_append.mp mem with front | last
  · rcases List.mem_cons.mp front with rfl | among
    · exact visible_text name
    · obtain ⟨param, listed, own⟩ := List.mem_flatMap.mp among
      obtain ⟨param_name, param_type⟩ := params param listed
      rcases List.mem_append.mp own with own | mark
      · rcases List.mem_cons.mp own with rfl | typed
        · exact visible_text param_name
        · exact visible_typeData param_type datum typed
      · cases List.mem_singleton.mp mark
        exact variableType_lt param
  · exact visible_typeData returnType datum last

theorem visible_propertiesData {properties : List ASTProperty} {propertyIndex modelIndex : Nat}
    (visible : ∀ p ∈ properties, Printable p.name ∧ Printable p.type) :
    ∀ datum ∈ propertiesData c propertyIndex modelIndex properties, datum.Visible := by
  induction properties generalizing propertyIndex modelIndex with
  | nil => exact fun _ mem => nomatch mem
  | cons p properties ih =>
    obtain ⟨name, type⟩ := visible p List.mem_cons_self
    intro datum mem
    rcases List.mem_append.mp mem with own | later
    · rcases List.mem_append.mp own with own | mark
      · rcases List.mem_cons.mp own with rfl | typed
        · exact visible_text name
        · unfold propertyTypeData at typed
          split at typed
          · obtain ⟨m, -, rfl⟩ := Option.map_eq_some_iff.mp (Option.mem_toList.mp typed)
            trivial
          · split at typed
            · cases List.mem_singleton.mp typed
              trivial
            · exact visible_typeData type datum typed
      · cases List.mem_singleton.mp mark
        exact modifier_lt p.modifier
    · exact ih (fun q listed => visible q (List.mem_cons_of_mem _ listed)) datum later

theorem visible_class (visible : c.Printable) : ∀ datum ∈ (SignedType.cls c).signature_impl, datum.Visible := by
  obtain ⟨name, properties, functions⟩ := visible
  intro datum mem
  rcases List.mem_append.mp mem with front | of_slots
  · rcases List.mem_append.mp front with front | of_signals
    · rcases List.mem_cons.mp front with rfl | of_properties
      · exact visible_text name
      · exact visible_propertiesData properties datum of_properties
    · obtain ⟨f, listed, own⟩ := List.mem_flatMap.mp of_signals
      exact visible_functionData (functions f (List.mem_append_left _ listed)) datum own
  · obtain ⟨f, listed, own⟩ := List.mem_flatMap.mp of_slots
    exact visible_functionData (functions f (List.mem_append_right _ listed)) datum own

end Data

section Injective
variable {sha : Sha1} (a b : RepClass)

theorem RepClass.fed_eq (sha : Sha1) (a : RepClass) : a.fed sha = (a.marks sha).written markOf := by
  have at_position : a.file.types[a.position]? = some (.cls a.cls) := by
    rw [RepFile.types, List.getElem?_map, a.declared]
    rfl
  rw [RepClass.marks, written_outline, RepClass.fed, checksumInput, at_position]
  simp only [SignedType.fed, written, RepClass.pieces, List.flatMap_map]
  refine congrArg (fun f => List.flatMap f _) (funext fun datum => ?_)
  cases datum <;> rfl

theorem RepClass.clean_marks (sha : Sha1) (a : RepClass) : (a.marks sha).Clean isMark (· < 4) := by
  refine clean_outline (fun t mem => ?_) fun m mem => ?_
  · obtain ⟨datum, listed, equal⟩ := List.mem_map.mp mem
    have visible := visible_class a.printable datum listed
    cases datum with
    | enumerator value => cases equal
    | bytes b =>
      cases equal
      exact isMark_data visible fun _ => Datum.noConfusion
    | plainType className type =>
      cases equal
      exact isMark_data visible fun _ => Datum.noConfusion
    | signature key =>
      cases equal
      exact isMark_data visible fun _ => Datum.noConfusion
  · obtain ⟨datum, listed, equal⟩ := List.mem_map.mp mem
    have visible := visible_class a.printable datum listed
    cases datum with
    | enumerator value =>
      cases equal
      exact visible
    | bytes b => cases equal
    | plainType className type => cases equal
    | signature key => cases equal

theorem markOf_injective (m m' : Nat) (small : m < 4) (small' : m' < 4)
    (same : (markOf m : Fed sha) = markOf m') : m = m' := by
  have first := (List.cons.inj same).1
  have bytes := congrArg UInt8.toNat (Sum.inl.inj first)
  rwa [Nat.toUInt8_eq, Nat.toUInt8_eq, UInt8.toNat_ofNat', UInt8.toNat_ofNat', Nat.mod_eq_of_lt (by omega),
    Nat.mod_eq_of_lt (by omega)] at bytes

theorem begins_markOf (m : Nat) (small : m < 4) : ∃ x s, (markOf m : Fed sha) = x :: s ∧ isMark x = true := by
  refine ⟨_, _, rfl, decide_eq_true ?_⟩
  rw [UInt8.lt_iff_toNat_lt, Nat.toUInt8_eq, UInt8.toNat_ofNat', Nat.mod_eq_of_lt (by omega)]
  exact small

/-- The bytes say the modifiers and qualifiers and the text between them, and nothing else. -/
theorem fed_eq_iff (sha : Sha1) (a b : RepClass) : a.fed sha = b.fed sha ↔ a.marks sha = b.marks sha := by
  rw [RepClass.fed_eq, RepClass.fed_eq]
  constructor
  · have length (m : Nat) : (markOf m : Fed sha).length = 4 := rfl
    exact written_injective length begins_markOf markOf_injective (a.clean_marks sha) (b.clean_marks sha)
  · exact congrArg _

end Injective

section Example

/-- `class Foo` with a signal or a slot `void stop()`. -/
def fooClass (signalsList slotsList : List ASTFunction) : ASTClass :=
  { name := "Foo".toList, signalsList, slotsList }

def stopFunction : ASTFunction := { name := "stop".toList }

def withSignal : RepClass where
  file := [⟨.global, .cls (fooClass [stopFunction] [])⟩]
  position := 0
  cls := fooClass [stopFunction] []
  declared := rfl
  printable := by decide

def withSlot : RepClass where
  file := [⟨.global, .cls (fooClass [] [stopFunction])⟩]
  position := 0
  cls := fooClass [] [stopFunction]
  declared := rfl
  printable := by decide

end Example

end RemoteObjects.Repc
