import EventEngine.Memory.Bytes
import Mathlib.Logic.Function.Basic

/-!
# Names, descriptors and mappings

A `Table` is a partial function on the names of shared memory, on descriptors and on addresses.
The kernel has one with everything there is. What one party has acquired and not given back is
a table too: a part of the kernel's, apart from the tables of the other parties.
-/

namespace EventEngine.Posix

open Memory

abbrev Name := Bytes
abbrev Object := Nat
abbrev Descriptor := Nat
abbrev Address := Nat
abbrev Errno := Int

section Partial

variable {α β : Type} {f g : α → Option β} {a : α}

/-- `g` has everything that `f` has. -/
def PartOf (f g : α → Option β) : Prop := ∀ a b, f a = some b → g a = some b

/-- Nothing is in both. -/
def ApartFrom (f g : α → Option β) : Prop := ∀ a, f a = none ∨ g a = none

theorem PartOf.eq_none (h : PartOf f g) (ha : g a = none) : f a = none := by
  cases hf : f a with
  | none => rfl
  | some b =>
      rw [h a b hf] at ha
      cases ha

theorem ApartFrom.symm (h : ApartFrom f g) : ApartFrom g f := fun a => (h a).symm

theorem ApartFrom.eq_none (h : ApartFrom f g) (ha : f a ≠ none) : g a = none :=
  (h a).resolve_left ha

variable [DecidableEq α]

/-- The same change of both keeps the part. -/
theorem PartOf.update (h : PartOf f g) (a : α) (v : Option β) :
    PartOf (Function.update f a v) (Function.update g a v) := by
  intro b w hb
  by_cases hab : b = a
  · subst hab
    rw [Function.update_self] at hb ⊢
    exact hb
  · rw [Function.update_of_ne hab] at hb ⊢
    exact h b w hb

/-- A change where the part has nothing. -/
theorem PartOf.update_other (h : PartOf f g) (hf : f a = none) (v : Option β) :
    PartOf f (Function.update g a v) := by
  intro b w hb
  by_cases hab : b = a
  · subst hab
    rw [hf] at hb
    cases hb
  · rw [Function.update_of_ne hab]
    exact h b w hb

/-- Everything in `g` is in one of the parts. -/
def Covers {ι : Type} (parts : ι → α → Option β) (g : α → Option β) : Prop :=
  ∀ a b, g a = some b → ∃ i, parts i a = some b

/-- A part and the whole change alike. -/
theorem Covers.update {ι : Type} [DecidableEq ι] {parts : ι → α → Option β}
    (h : Covers parts g) (i : ι) (a : α) (v : Option β) :
    Covers (Function.update parts i (Function.update (parts i) a v)) (Function.update g a v) := by
  intro b w hb
  by_cases hab : b = a
  · subst hab
    refine ⟨i, ?_⟩
    rw [Function.update_self] at hb ⊢
    rw [Function.update_self]
    exact hb
  · rw [Function.update_of_ne hab] at hb
    obtain ⟨j, hj⟩ := h b w hb
    refine ⟨j, ?_⟩
    by_cases hji : j = i
    · subst hji
      rw [Function.update_self, Function.update_of_ne hab]
      exact hj
    · rw [Function.update_of_ne hji]
      exact hj

/-- One of them changes where the other has nothing. -/
theorem ApartFrom.update (h : ApartFrom f g) (hg : g a = none) (v : Option β) :
    ApartFrom (Function.update f a v) g := by
  intro b
  by_cases hab : b = a
  · subst hab
    exact .inr hg
  · rw [Function.update_of_ne hab]
    exact h b

end Partial

/-- What a descriptor refers to. -/
inductive Target where
  | object (o : Object)
  | socket
  deriving DecidableEq, Repr

/-- A mapping of a whole object. -/
structure Mapping where
  object : Object
  length : UInt64
  deriving DecidableEq, Repr

@[ext] structure Table where
  names : Name → Option Object := fun _ => none
  descriptors : Descriptor → Option Target := fun _ => none
  mappings : Address → Option Mapping := fun _ => none

namespace Table

/-- Nothing at all. -/
def empty : Table := {}

def setName (t : Table) (name : Name) (v : Option Object) : Table :=
  { t with names := Function.update t.names name v }

def setDescriptor (t : Table) (d : Descriptor) (v : Option Target) : Table :=
  { t with descriptors := Function.update t.descriptors d v }

def setMapping (t : Table) (a : Address) (v : Option Mapping) : Table :=
  { t with mappings := Function.update t.mappings a v }

section Fields

variable (t : Table) (name : Name) (o : Option Object) (d : Descriptor) (v : Option Target)
variable (a : Address) (m : Option Mapping)

@[simp] theorem setName_names : (t.setName name o).names = Function.update t.names name o := rfl
@[simp] theorem setName_descriptors : (t.setName name o).descriptors = t.descriptors := rfl
@[simp] theorem setName_mappings : (t.setName name o).mappings = t.mappings := rfl

@[simp] theorem setDescriptor_names : (t.setDescriptor d v).names = t.names := rfl
@[simp] theorem setDescriptor_descriptors :
    (t.setDescriptor d v).descriptors = Function.update t.descriptors d v := rfl
@[simp] theorem setDescriptor_mappings : (t.setDescriptor d v).mappings = t.mappings := rfl

@[simp] theorem setMapping_names : (t.setMapping a m).names = t.names := rfl
@[simp] theorem setMapping_descriptors : (t.setMapping a m).descriptors = t.descriptors := rfl
@[simp] theorem setMapping_mappings :
    (t.setMapping a m).mappings = Function.update t.mappings a m := rfl

@[simp] theorem empty_names : empty.names name = none := rfl
@[simp] theorem empty_descriptors : empty.descriptors d = none := rfl
@[simp] theorem empty_mappings : empty.mappings a = none := rfl

end Fields

/-- What was added can be removed again. -/
theorem setName_undo {t : Table} {name : Name} (h : t.names name = none) (o : Option Object) :
    (t.setName name o).setName name none = t := by
  simp only [setName, Function.update_idem, ← h, Function.update_eq_self]

theorem setDescriptor_undo {t : Table} {d : Descriptor} (h : t.descriptors d = none)
    (v : Option Target) : (t.setDescriptor d v).setDescriptor d none = t := by
  simp only [setDescriptor, Function.update_idem, ← h, Function.update_eq_self]

/-- Remove a descriptor, if there is one. -/
def dropDescriptor (t : Table) : Option Descriptor → Table
  | none => t
  | some d => t.setDescriptor d none

/-- Remove a mapping, if there is one. -/
def dropMapping (t : Table) : Option Address → Table
  | none => t
  | some a => t.setMapping a none

/-- One of the tables changes; what of it is looked at changes alike. -/
theorem update_field {ι γ : Type} [DecidableEq ι] (field : Table → γ) (parts : ι → Table)
    (i : ι) (t : Table) :
    (fun j => field (Function.update parts i t j)) =
      Function.update (fun j => field (parts j)) i (field t) := by
  funext j
  by_cases hj : j = i
  · subst hj
    simp only [Function.update_self]
  · simp only [Function.update_of_ne hj]

/-- A part of a table. -/
structure Part (h t : Table) : Prop where
  names : PartOf h.names t.names
  descriptors : PartOf h.descriptors t.descriptors
  mappings : PartOf h.mappings t.mappings

/-- The tables have everything there is. -/
structure Cover {ι : Type} (parts : ι → Table) (t : Table) : Prop where
  names : Covers (fun i => (parts i).names) t.names
  descriptors : Covers (fun i => (parts i).descriptors) t.descriptors
  mappings : Covers (fun i => (parts i).mappings) t.mappings

/-- Two tables with nothing in common. -/
structure Apart (h h' : Table) : Prop where
  names : ApartFrom h.names h'.names
  descriptors : ApartFrom h.descriptors h'.descriptors
  mappings : ApartFrom h.mappings h'.mappings

theorem empty_part (t : Table) : Part empty t where
  names _ _ h := by cases h
  descriptors _ _ h := by cases h
  mappings _ _ h := by cases h

theorem empty_apart (t : Table) : Apart empty t where
  names _ := .inl rfl
  descriptors _ := .inl rfl
  mappings _ := .inl rfl

/-- A table is determined by parts that have everything. -/
theorem Cover.unique {ι : Type} {parts : ι → Table} {t t' : Table} (h : Cover parts t)
    (h' : Cover parts t') (hpart : ∀ i, (parts i).Part t) (hpart' : ∀ i, (parts i).Part t') :
    t = t' := by
  have hsame : ∀ {α β : Type} {ps : ι → α → Option β} {f g : α → Option β},
      Covers ps f → Covers ps g → (∀ i, PartOf (ps i) f) → (∀ i, PartOf (ps i) g) → f = g := by
    intro α β ps f g hf hg hpf hpg
    funext a
    apply Option.ext
    intro b
    constructor
    · intro hb
      obtain ⟨i, hi⟩ := hf a b hb
      exact hpg i a b hi
    · intro hb
      obtain ⟨i, hi⟩ := hg a b hb
      exact hpf i a b hi
  apply Table.ext
  · exact hsame h.names h'.names (fun i => (hpart i).names) (fun i => (hpart' i).names)
  · exact hsame h.descriptors h'.descriptors (fun i => (hpart i).descriptors)
      (fun i => (hpart' i).descriptors)
  · exact hsame h.mappings h'.mappings (fun i => (hpart i).mappings)
      (fun i => (hpart' i).mappings)

theorem Apart.symm {h h' : Table} (hapart : Apart h h') : Apart h' h where
  names := hapart.names.symm
  descriptors := hapart.descriptors.symm
  mappings := hapart.mappings.symm

end Table

/-- One entry of a table is set or removed. -/
inductive Change where
  | name (name : Name) (v : Option Object)
  | descriptor (d : Descriptor) (v : Option Target)
  | mapping (a : Address) (v : Option Mapping)

namespace Change

def apply : Change → Table → Table
  | .name n v, t => t.setName n v
  | .descriptor d v, t => t.setDescriptor d v
  | .mapping a v, t => t.setMapping a v

def applyAll (changes : List Change) (t : Table) : Table :=
  changes.foldl (fun t c => c.apply t) t

/-- The table has nothing where the change is. -/
def Free (h : Table) : Change → Prop
  | .name n _ => h.names n = none
  | .descriptor d _ => h.descriptors d = none
  | .mapping a _ => h.mappings a = none

variable {c : Change} {changes : List Change} {h h' t : Table}

theorem apply_part (c : Change) (hpart : h.Part t) : (c.apply h).Part (c.apply t) := by
  cases c with
  | name n v => exact ⟨hpart.names.update _ _, hpart.descriptors, hpart.mappings⟩
  | descriptor d v => exact ⟨hpart.names, hpart.descriptors.update _ _, hpart.mappings⟩
  | mapping a v => exact ⟨hpart.names, hpart.descriptors, hpart.mappings.update _ _⟩

theorem apply_other (hfree : c.Free h') (hpart : h'.Part t) (hapart : h.Apart h') :
    h'.Part (c.apply t) ∧ (c.apply h).Apart h' := by
  cases c with
  | name n v =>
      exact ⟨⟨hpart.names.update_other hfree v, hpart.descriptors, hpart.mappings⟩,
        ⟨hapart.names.update hfree v, hapart.descriptors, hapart.mappings⟩⟩
  | descriptor d v =>
      exact ⟨⟨hpart.names, hpart.descriptors.update_other hfree v, hpart.mappings⟩,
        ⟨hapart.names, hapart.descriptors.update hfree v, hapart.mappings⟩⟩
  | mapping a v =>
      exact ⟨⟨hpart.names, hpart.descriptors, hpart.mappings.update_other hfree v⟩,
        ⟨hapart.names, hapart.descriptors, hapart.mappings.update hfree v⟩⟩

theorem apply_cover {ι : Type} [DecidableEq ι] {parts : ι → Table} (c : Change) (i : ι)
    (hcover : Table.Cover parts t) :
    Table.Cover (Function.update parts i (c.apply (parts i))) (c.apply t) := by
  cases c with
  | name n v =>
      refine ⟨?_, ?_, ?_⟩
      · rw [Table.update_field Table.names]
        exact hcover.names.update i n v
      · rw [Table.update_field Table.descriptors]
        simpa [apply] using hcover.descriptors
      · rw [Table.update_field Table.mappings]
        simpa [apply] using hcover.mappings
  | descriptor d v =>
      refine ⟨?_, ?_, ?_⟩
      · rw [Table.update_field Table.names]
        simpa [apply] using hcover.names
      · rw [Table.update_field Table.descriptors]
        exact hcover.descriptors.update i d v
      · rw [Table.update_field Table.mappings]
        simpa [apply] using hcover.mappings
  | mapping a v =>
      refine ⟨?_, ?_, ?_⟩
      · rw [Table.update_field Table.names]
        simpa [apply] using hcover.names
      · rw [Table.update_field Table.descriptors]
        simpa [apply] using hcover.descriptors
      · rw [Table.update_field Table.mappings]
        exact hcover.mappings.update i a v

/-- The same changes of a table and of one of its parts lose nothing. -/
theorem applyAll_cover {ι : Type} [DecidableEq ι] {parts : ι → Table} (changes : List Change)
    (i : ι) (hcover : Table.Cover parts t) :
    Table.Cover (Function.update parts i (applyAll changes (parts i))) (applyAll changes t) := by
  induction changes generalizing parts t with
  | nil =>
      rw [applyAll, List.foldl_nil, Function.update_eq_self]
      exact hcover
  | cons c rest ih =>
      have hrest := ih (apply_cover c i hcover)
      rw [Function.update_self, Function.update_idem] at hrest
      exact hrest

/-- The same changes of a table and of a part of it keep the part. -/
theorem applyAll_part (changes : List Change) (hpart : h.Part t) :
    (applyAll changes h).Part (applyAll changes t) := by
  induction changes generalizing h t with
  | nil => exact hpart
  | cons c rest ih => exact ih (c.apply_part hpart)

/-- Changes where another part has nothing keep that part, and keep it apart. -/
theorem applyAll_other (hfree : ∀ c ∈ changes, c.Free h') (hpart : h'.Part t)
    (hapart : h.Apart h') :
    h'.Part (applyAll changes t) ∧ (applyAll changes h).Apart h' := by
  induction changes generalizing h t with
  | nil => exact ⟨hpart, hapart⟩
  | cons c rest ih =>
      obtain ⟨hpart, hapart⟩ := apply_other (hfree c List.mem_cons_self) hpart hapart
      exact ih (fun c' hc' => hfree c' (List.mem_cons_of_mem c hc')) hpart hapart

end Change

end EventEngine.Posix
