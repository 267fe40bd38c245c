import EventEngine.Concurrency.Thread
import EventEngine.Posix.Table

/-!
# System calls

Shared memory objects with their names, descriptors, mappings and sockets. A call may always
fail; the kernel chooses the descriptors and the addresses, and those of different processes
are told apart. A call has the same effect on the
kernel's table and on the table of its caller, as long as the caller gives back only what it
has.
-/

namespace EventEngine.Posix

open Concurrency Memory

/-- The system calls, with the arguments that matter. `shmCreate` is `shm_open` with `O_CREAT`
and `O_EXCL`. -/
inductive Op where
  | shmCreate (name : Name)
  | shmOpen (name : Name)
  | ftruncate (d : Descriptor) (length : Int64)
  | fstat (d : Descriptor)
  | mmap (length : UInt64) (d : Descriptor)
  | munmap (a : Address) (length : UInt64)
  | close (d : Descriptor)
  | shmUnlink (name : Name)
  | socket
  | bind (d : Descriptor) (address : UInt32) (port : UInt16)
  | getsockname (d : Descriptor)
  | getrandom (count : Nat)
  deriving DecidableEq, Repr

/-- What a call returns if it does not fail. -/
abbrev Op.Value : Op → Type
  | .shmCreate _ => Descriptor
  | .shmOpen _ => Descriptor
  | .fstat _ => Int64
  | .mmap _ _ => Address
  | .socket => Descriptor
  | .getsockname _ => UInt16
  | .getrandom _ => Bytes
  | _ => Unit

abbrev Op.Res (op : Op) : Type := Except Errno op.Value

abbrev posixAccess : Signature := ⟨Op, Op.Res⟩

/-- `objects` is the number of the next object, `sizes` are the sizes of those that exist. -/
structure Kernel where
  table : Table := {}
  objects : Object := 0
  sizes : Object → Int64 := fun _ => 0

namespace Kernel

/-- The object that a descriptor refers to. -/
def objectOf (k : Kernel) (d : Descriptor) : Option Object :=
  match k.table.descriptors d with
  | some (.object o) => some o
  | _ => none

/-- Whether the kernel may answer so. It may always report a failure. -/
def possible (k : Kernel) : (op : Op) → op.Res → Bool
  | .shmCreate name, .ok d => (k.table.names name).isNone && (k.table.descriptors d).isNone
  | .shmOpen name, .ok d => (k.table.names name).isSome && (k.table.descriptors d).isNone
  | .ftruncate d _, .ok _ => (k.objectOf d).isSome
  | .fstat d, .ok size => (k.objectOf d).any fun o => k.sizes o = size
  | .mmap _ d, .ok a => (k.objectOf d).isSome && (k.table.mappings a).isNone
  | .close d, .ok _ => (k.table.descriptors d).isSome
  | .shmUnlink name, .ok _ => (k.table.names name).isSome
  | .socket, .ok d => (k.table.descriptors d).isNone
  | .bind d _ _, .ok _ => k.table.descriptors d = some .socket
  | .getsockname d, .ok _ => k.table.descriptors d = some .socket
  | .getrandom count, .ok bytes => bytes.length ≤ count
  | _, _ => true

/-- What a call changes. A descriptor is released even if `close` reports an error. -/
def changes (k : Kernel) : (op : Op) → op.Res → List Change
  | .shmCreate name, .ok d =>
      [.name name (some k.objects), .descriptor d (some (.object k.objects))]
  | .shmOpen name, .ok d => [.descriptor d ((k.table.names name).map .object)]
  | .mmap length d, .ok a => [.mapping a ((k.objectOf d).map fun o => ⟨o, length⟩)]
  | .munmap a _, .ok _ => [.mapping a none]
  | .close d, _ => [.descriptor d none]
  | .shmUnlink name, .ok _ => [.name name none]
  | .socket, .ok d => [.descriptor d (some .socket)]
  | _, _ => []

/-- What a call does to a table. -/
def effect (k : Kernel) (op : Op) (r : op.Res) (t : Table) : Table :=
  Change.applyAll (k.changes op r) t

/-- The number of the next object. -/
def allocate (k : Kernel) : (op : Op) → op.Res → Object
  | .shmCreate _, .ok _ => k.objects + 1
  | _, _ => k.objects

/-- What a call does to the sizes of the objects. -/
def resize (k : Kernel) : (op : Op) → op.Res → Object → Int64
  | .shmCreate _, .ok _ => Function.update k.sizes k.objects 0
  | .ftruncate d length, .ok _ =>
      match k.objectOf d with
      | some o => Function.update k.sizes o length
      | none => k.sizes
  | _, _ => k.sizes

/-- The call, if the kernel may answer so. -/
def perform (k : Kernel) (op : Op) (r : op.Res) : Option Kernel :=
  if k.possible op r then
    some
      { table := k.effect op r k.table
        objects := k.allocate op r
        sizes := k.resize op r }
  else none

end Kernel

/-- The caller gives back only what it has. -/
def Allowed (h : Table) : Op → Prop
  | .munmap a length => ∃ o, h.mappings a = some ⟨o, length⟩
  | .close d => h.descriptors d ≠ none
  | .shmUnlink name => h.names name ≠ none
  | .ftruncate d _ => ∃ name o, h.descriptors d = some (.object o) ∧ h.names name = some o
  | _ => True

/-- What the call gives back is in the table. -/
def Possessed (h : Table) : Op → Prop
  | .munmap a _ => h.mappings a ≠ none
  | .close d => h.descriptors d ≠ none
  | .shmUnlink name => h.names name ≠ none
  | _ => True

theorem Allowed.possessed {h : Table} {op : Op} (hallowed : Allowed h op) : Possessed h op := by
  cases op with
  | munmap a length =>
      obtain ⟨o, ho⟩ := hallowed
      simp [Possessed, ho]
  | close d => exact hallowed
  | shmUnlink name => exact hallowed
  | _ => trivial

/-- The calls that give something back succeed. -/
def GivesBack : (op : Op) → op.Res → Prop
  | .munmap _ _, r => r = .ok ()
  | .close _, r => r = .ok ()
  | .shmUnlink _, r => r = .ok ()
  | _, _ => True

/-- What a caller knows of a call: it is answered by a kernel whose table has the caller's as
a part. If `reliable`, giving something back succeeds. -/
def environment (reliable : Prop) : Environment posixAccess Table := fun op r h h' =>
  (∃ k : Kernel, Table.Part h k.table ∧ k.possible op r = true ∧ h' = k.effect op r h) ∧
    (reliable → GivesBack op r)

namespace Kernel

variable {k k' : Kernel} {op : Op} {r : op.Res} {h h' : Table}

theorem perform_eq (hperform : k.perform op r = some k') :
    k.possible op r = true ∧
      k' = ⟨k.effect op r k.table, k.allocate op r, k.resize op r⟩ := by
  rw [perform] at hperform
  split at hperform
  case isTrue hpossible => exact ⟨hpossible, (Option.some.inj hperform).symm⟩
  case isFalse => cases hperform

theorem perform_cases (hperform : k.perform op r = some k') :
    k.possible op r = true ∧ k'.table = k.effect op r k.table := by
  obtain ⟨hpossible, rfl⟩ := perform_eq hperform
  exact ⟨hpossible, rfl⟩

/-- Everything that a call changes is new, or it is the caller's. -/
theorem changes_free (hpossible : k.possible op r = true) (hpossessed : Possessed h op)
    (hpart : h'.Part k.table) (hapart : h.Apart h') : ∀ c ∈ k.changes op r, c.Free h' := by
  intro c hc
  cases op with
  | shmCreate name =>
      cases r with
      | error e => cases hc
      | ok d =>
          obtain ⟨hname, hfree⟩ := Bool.and_eq_true_iff.mp hpossible
          obtain rfl | rfl := List.mem_pair.mp hc
          · exact hpart.names.eq_none (Option.isNone_iff_eq_none.mp hname)
          · exact hpart.descriptors.eq_none (Option.isNone_iff_eq_none.mp hfree)
  | shmOpen name =>
      cases r with
      | error e => cases hc
      | ok d =>
          obtain ⟨-, hfree⟩ := Bool.and_eq_true_iff.mp hpossible
          rw [List.mem_singleton.mp hc]
          exact hpart.descriptors.eq_none (Option.isNone_iff_eq_none.mp hfree)
  | mmap length d =>
      cases r with
      | error e => cases hc
      | ok a =>
          obtain ⟨-, hfree⟩ := Bool.and_eq_true_iff.mp hpossible
          rw [List.mem_singleton.mp hc]
          exact hpart.mappings.eq_none (Option.isNone_iff_eq_none.mp hfree)
  | munmap a length =>
      cases r with
      | error e => cases hc
      | ok v =>
          rw [List.mem_singleton.mp hc]
          exact hapart.mappings.eq_none hpossessed
  | close d =>
      have hc' : c = .descriptor d none := by
        cases r with
        | error e => exact List.mem_singleton.mp hc
        | ok v => exact List.mem_singleton.mp hc
      rw [hc']
      exact hapart.descriptors.eq_none hpossessed
  | shmUnlink name =>
      cases r with
      | error e => cases hc
      | ok v =>
          rw [List.mem_singleton.mp hc]
          exact hapart.names.eq_none hpossessed
  | socket =>
      cases r with
      | error e => cases hc
      | ok d =>
          rw [List.mem_singleton.mp hc]
          exact hpart.descriptors.eq_none (Option.isNone_iff_eq_none.mp hpossible)
  | ftruncate d length => cases r <;> cases hc
  | fstat d => cases r <;> cases hc
  | bind d address port => cases r <;> cases hc
  | getsockname d => cases r <;> cases hc
  | getrandom count => cases r <;> cases hc

end Kernel

/-- Only `shm_unlink` removes a name, and it removes no other. -/
theorem Kernel.perform_removes {k k' : Kernel} {op : Op} {r : op.Res} {name : Name} {o : Object}
    (hperform : k.perform op r = some k') (hname : k.table.names name = some o)
    (hremoved : k'.table.names name ≠ some o) :
    op = .shmUnlink name ∧ ∀ n, n ≠ name → k'.table.names n = k.table.names n := by
  obtain ⟨hpossible, htable⟩ := perform_cases hperform
  rw [htable] at hremoved ⊢
  cases op with
  | shmCreate n =>
      cases r with
      | error e => exact absurd hname hremoved
      | ok d =>
          obtain ⟨hfree, -⟩ := Bool.and_eq_true_iff.mp hpossible
          have hne : name ≠ n := by
            rintro rfl
            rw [Option.isNone_iff_eq_none.mp hfree] at hname
            cases hname
          apply absurd _ hremoved
          exact (Function.update_of_ne hne _ _).trans hname
  | shmUnlink n =>
      cases r with
      | error e => exact absurd hname hremoved
      | ok v =>
          by_cases hn : name = n
          · subst hn
            exact ⟨rfl, fun n' hne => Function.update_of_ne hne _ _⟩
          · apply absurd _ hremoved
            exact (Function.update_of_ne hn _ _).trans hname
  | shmOpen n => cases r <;> exact absurd hname hremoved
  | ftruncate d length => cases r <;> exact absurd hname hremoved
  | fstat d => cases r <;> exact absurd hname hremoved
  | mmap length d => cases r <;> exact absurd hname hremoved
  | munmap a length => cases r <;> exact absurd hname hremoved
  | close d => cases r <;> exact absurd hname hremoved
  | socket => cases r <;> exact absurd hname hremoved
  | bind d address port => cases r <;> exact absurd hname hremoved
  | getsockname d => cases r <;> exact absurd hname hremoved
  | getrandom count => cases r <;> exact absurd hname hremoved

/-- Only `shm_open` with `O_CREAT` makes a name, for a new object. -/
theorem Kernel.perform_names {k k' : Kernel} {op : Op} {r : op.Res} {name : Name} {o : Object}
    (hperform : k.perform op r = some k') (hname : k'.table.names name = some o) :
    k.table.names name = some o ∨
      op = .shmCreate name ∧ o = k.objects ∧ k'.objects = k.objects + 1 := by
  obtain ⟨-, rfl⟩ := perform_eq hperform
  cases op with
  | shmCreate n =>
      cases r with
      | error e => exact .inl hname
      | ok d =>
          change Function.update k.table.names n (some k.objects) name = some o at hname
          by_cases hn : name = n
          · subst hn
            rw [Function.update_self] at hname
            exact .inr ⟨rfl, (Option.some.inj hname).symm, rfl⟩
          · rw [Function.update_of_ne hn] at hname
            exact .inl hname
  | shmUnlink n =>
      cases r with
      | error e => exact .inl hname
      | ok v =>
          change Function.update k.table.names n none name = some o at hname
          by_cases hn : name = n
          · subst hn
            rw [Function.update_self] at hname
            cases hname
          · rw [Function.update_of_ne hn] at hname
            exact .inl hname
  | shmOpen n => cases r <;> exact .inl hname
  | ftruncate d length => cases r <;> exact .inl hname
  | fstat d => cases r <;> exact .inl hname
  | mmap length d => cases r <;> exact .inl hname
  | munmap a length => cases r <;> exact .inl hname
  | close d => cases r <;> exact .inl hname
  | socket => cases r <;> exact .inl hname
  | bind d address port => cases r <;> exact .inl hname
  | getsockname d => cases r <;> exact .inl hname
  | getrandom count => cases r <;> exact .inl hname

theorem Kernel.objects_le {k k' : Kernel} {op : Op} {r : op.Res}
    (hperform : k.perform op r = some k') : k.objects ≤ k'.objects := by
  obtain ⟨-, rfl⟩ := perform_eq hperform
  cases op with
  | shmCreate n =>
      cases r with
      | error e => exact Nat.le_refl _
      | ok d => exact Nat.le_succ _
  | _ => exact Nat.le_refl _

/-- An object exists before it has a name, and has one name at most. -/
structure Kernel.Distinct (k : Kernel) : Prop where
  allocated : ∀ name o, k.table.names name = some o → o < k.objects
  injective : ∀ name name' o, k.table.names name = some o → k.table.names name' = some o →
    name = name'

theorem Kernel.Distinct.perform {k k' : Kernel} {op : Op} {r : op.Res} (h : k.Distinct)
    (hperform : k.perform op r = some k') : k'.Distinct where
  allocated name o hname := by
    obtain hold | ⟨-, rfl, hobjects⟩ := perform_names hperform hname
    · exact Nat.lt_of_lt_of_le (h.allocated name o hold) (objects_le hperform)
    · rw [hobjects]
      exact Nat.lt_succ_self _
  injective name name' o hname hname' := by
    obtain hold | ⟨rfl, rfl, -⟩ := perform_names hperform hname
    · obtain hold' | ⟨-, rfl, -⟩ := perform_names hperform hname'
      · exact h.injective name name' o hold hold'
      · exact absurd (h.allocated name _ hold) (Nat.lt_irrefl _)
    · obtain hold' | ⟨hop, -, -⟩ := perform_names hperform hname'
      · exact absurd (h.allocated name' _ hold') (Nat.lt_irrefl _)
      · exact Op.shmCreate.inj hop

/-- A caller that resizes only what it has named leaves other named objects alone. -/
theorem Kernel.perform_sizes {k k' : Kernel} {op : Op} {r : op.Res} {h : Table} {name : Name}
    {o : Object} (hdistinct : k.Distinct) (hperform : k.perform op r = some k')
    (hpart : h.Part k.table) (hallowed : Allowed h op) (hname : k.table.names name = some o)
    (hother : h.names name = none) : k'.sizes o = k.sizes o := by
  obtain ⟨-, rfl⟩ := perform_eq hperform
  cases op with
  | shmCreate n =>
      cases r with
      | error e => rfl
      | ok d =>
          have hne : o ≠ k.objects := Nat.ne_of_lt (hdistinct.allocated name o hname)
          exact Function.update_of_ne hne _ _
  | ftruncate d length =>
      cases r with
      | error e => rfl
      | ok v =>
          obtain ⟨name', o', hd, hname'⟩ := hallowed
          have hobject : k.objectOf d = some o' := by
            rw [objectOf, hpart.descriptors d _ hd]
          have hne : o ≠ o' := by
            rintro rfl
            have hsame := hdistinct.injective _ _ _ hname (hpart.names _ _ hname')
            rw [← hsame, hother] at hname'
            cases hname'
          change k.resize (.ftruncate d length) (.ok v) o = k.sizes o
          simp only [resize, hobject]
          exact Function.update_of_ne hne _ _
  | _ => rfl

/-- The calls that can change what a name denotes. -/
def Op.changesNames : Op → Bool
  | .shmCreate _ => true
  | .shmUnlink _ => true
  | _ => false

theorem Kernel.perform_keeps_names {k k' : Kernel} {op : Op} {r : op.Res}
    (hperform : k.perform op r = some k') (hop : op.changesNames = false) :
    k'.table.names = k.table.names := by
  rw [(perform_cases hperform).2]
  cases op <;> cases r <;> first | rfl | cases hop

/-- The parties of a kernel: what each has is there, and no two have the same. -/
structure Kernel.Shared {ι : Type} (k : Kernel) (holding : ι → Table) : Prop where
  part : ∀ i, (holding i).Part k.table
  apart : ∀ i j, i ≠ j → (holding i).Apart (holding j)

namespace Kernel.Shared

variable {ι : Type} [DecidableEq ι] {k k' : Kernel} {holding : ι → Table} {i j : ι}
variable {op : Op} {r : op.Res} {t : Table}

omit [DecidableEq ι] in
theorem initial (k : Kernel) : k.Shared fun _ : ι => Table.empty where
  part _ := Table.empty_part _
  apart _ _ _ := Table.empty_apart _

/-- One party performs a call. -/
theorem perform (h : k.Shared holding) (hpossessed : Possessed (holding i) op)
    (hperform : k.perform op r = some k') :
    k'.Shared (Function.update holding i (k.effect op r (holding i))) := by
  obtain ⟨hpossible, htable⟩ := perform_cases hperform
  have hothers : ∀ j, i ≠ j →
      (holding j).Part (k.effect op r k.table) ∧
        (k.effect op r (holding i)).Apart (holding j) := by
    intro j hne
    exact Change.applyAll_other
      (changes_free hpossible hpossessed (h.part j) (h.apart i j hne)) (h.part j) (h.apart i j hne)
  constructor
  · intro j
    rw [htable]
    by_cases hne : j = i
    · subst hne
      rw [Function.update_self]
      exact Change.applyAll_part _ (h.part j)
    · rw [Function.update_of_ne hne]
      exact (hothers j (Ne.symm hne)).1
  · intro j j' hdiffer
    by_cases hj : j = i
    · subst hj
      rw [Function.update_self, Function.update_of_ne (Ne.symm hdiffer)]
      exact (hothers j' hdiffer).2
    · rw [Function.update_of_ne hj]
      by_cases hj' : j' = i
      · subst hj'
        rw [Function.update_self]
        exact (hothers j hdiffer.symm).2.symm
      · rw [Function.update_of_ne hj']
        exact h.apart j j' hdiffer

/-- If the parties have everything, they still do after a call. -/
theorem cover_perform (hcover : Table.Cover holding k.table)
    (hperform : k.perform op r = some k') (i : ι) :
    Table.Cover (Function.update holding i (k.effect op r (holding i))) k'.table := by
  rw [(perform_cases hperform).2]
  exact Change.applyAll_cover _ i hcover

omit [DecidableEq ι] in
/-- What the parties have changes hands; some of it is forgotten. -/
theorem reassign (h : k.Shared holding) {f : ι → Option ι}
    (hinj : ∀ x y i, f x = some i → f y = some i → x = y) :
    k.Shared fun x => (f x).elim Table.empty holding := by
  constructor
  · intro x
    cases hx : f x with
    | none => exact Table.empty_part _
    | some i => exact h.part i
  · intro x y hne
    cases hx : f x with
    | none => exact Table.empty_apart _
    | some i =>
        cases hy : f y with
        | none => exact (Table.empty_apart _).symm
        | some j =>
            apply h.apart
            rintro rfl
            exact hne (hinj x y i hx hy)

/-- A party forgets what it has. -/
theorem forget (h : k.Shared holding) (i : ι) :
    k.Shared (Function.update holding i Table.empty) := by
  have hsource := h.reassign (f := fun x => if x = i then none else some x) (by
    intro x y z hx hy
    grind)
  convert hsource using 1
  funext x
  by_cases hx : x = i
  · subst hx
    simp
  · simp [hx]

/-- A party takes over what another has. -/
theorem takeOver (h : k.Shared holding) (hne : i ≠ j) :
    k.Shared (Function.update (Function.update holding i (holding j)) j Table.empty) := by
  have hsource := h.reassign
    (f := fun x => if x = j then none else if x = i then some j else some x) (by
      intro x y z hx hy
      grind)
  convert hsource using 1
  funext x
  by_cases hj : x = j
  · subst hj
    simp
  · by_cases hi : x = i
    · subst hi
      simp [hj]
    · simp [hi, hj]

/-- Nothing is lost if the party had nothing itself. -/
theorem cover_takeOver (hcover : Table.Cover holding t) (hempty : holding i = .empty) :
    Table.Cover (Function.update (Function.update holding i (holding j)) j .empty) t := by
  have hsame : ∀ {α β : Type} (field : Table → α → Option β),
      (∀ a, field .empty a = none) → Covers (fun x => field (holding x)) (field t) →
      Covers (fun x => field (Function.update (Function.update holding i (holding j)) j
        .empty x)) (field t) := by
    intro α β field hnone hcovers a b hb
    obtain ⟨x, hx⟩ := hcovers a b hb
    have hxi : x ≠ i := by
      rintro rfl
      dsimp only at hx
      rw [hempty, hnone] at hx
      cases hx
    by_cases hxj : x = j
    · subst hxj
      refine ⟨i, ?_⟩
      dsimp only
      rw [Function.update_of_ne hxi.symm, Function.update_self]
      exact hx
    · refine ⟨x, ?_⟩
      dsimp only
      rw [Function.update_of_ne hxj, Function.update_of_ne hxi]
      exact hx
  constructor
  · exact hsame Table.names (fun _ => rfl) hcover.names
  · exact hsame Table.descriptors (fun _ => rfl) hcover.descriptors
  · exact hsame Table.mappings (fun _ => rfl) hcover.mappings

end Kernel.Shared

/-! ### What a caller knows -/

/-- The process gives back only what it has, and `post` holds at its end. -/
abbrev Keeps {ℓ α : Type} (reliable : Prop) (p : Process posixAccess ℓ α) (h : Table)
    (post : α → Table → Prop) : Prop :=
  p.Meets (environment reliable) (fun _ op h => Allowed h op) (fun a _ h => post a h) h

section Caller

variable {reliable : Prop} {h h' : Table} {name : Name} {d : Descriptor} {a : Address}
variable {length : UInt64} {op : Op} {r : op.Res}

/-- A call that changes nothing. -/
theorem environment.same (henv : environment reliable op r h h')
    (hchanges : ∀ k : Kernel, k.changes op r = []) : h' = h := by
  obtain ⟨⟨k, -, -, rfl⟩, -⟩ := henv
  rw [Kernel.effect, hchanges]
  rfl

theorem environment.shmCreate {r : (Op.shmCreate name).Res}
    (henv : environment reliable (.shmCreate name) r h h') :
    (∃ e, r = .error e ∧ h' = h) ∨ ∃ d o, r = .ok d ∧ h.names name = none ∧
      h.descriptors d = none ∧
      h' = (h.setName name (some o)).setDescriptor d (some (.object o)) := by
  obtain ⟨⟨k, hpart, hpossible, rfl⟩, -⟩ := henv
  cases r with
  | error e => exact .inl ⟨e, rfl, rfl⟩
  | ok d =>
      obtain ⟨hname, hfree⟩ := Bool.and_eq_true_iff.mp hpossible
      exact .inr ⟨d, k.objects, rfl, hpart.names.eq_none (Option.isNone_iff_eq_none.mp hname),
        hpart.descriptors.eq_none (Option.isNone_iff_eq_none.mp hfree), rfl⟩

theorem environment.shmOpen {r : (Op.shmOpen name).Res}
    (henv : environment reliable (.shmOpen name) r h h') :
    (∃ e, r = .error e ∧ h' = h) ∨ ∃ d o, r = .ok d ∧ h.descriptors d = none ∧
      h' = h.setDescriptor d (some (.object o)) := by
  obtain ⟨⟨k, hpart, hpossible, rfl⟩, -⟩ := henv
  cases r with
  | error e => exact .inl ⟨e, rfl, rfl⟩
  | ok d =>
      obtain ⟨hname, hfree⟩ := Bool.and_eq_true_iff.mp hpossible
      obtain ⟨o, ho⟩ := Option.isSome_iff_exists.mp hname
      refine .inr ⟨d, o, rfl, hpart.descriptors.eq_none (Option.isNone_iff_eq_none.mp hfree), ?_⟩
      rw [Kernel.effect, Kernel.changes, ho]
      rfl

theorem environment.mmap {r : (Op.mmap length d).Res} {o : Object}
    (henv : environment reliable (.mmap length d) r h h')
    (hd : h.descriptors d = some (.object o)) :
    (∃ e, r = .error e ∧ h' = h) ∨ ∃ a, r = .ok a ∧ h.mappings a = none ∧
      h' = h.setMapping a (some ⟨o, length⟩) := by
  obtain ⟨⟨k, hpart, hpossible, rfl⟩, -⟩ := henv
  cases r with
  | error e => exact .inl ⟨e, rfl, rfl⟩
  | ok a =>
      obtain ⟨-, hfree⟩ := Bool.and_eq_true_iff.mp hpossible
      have hobject : k.objectOf d = some o := by
        rw [Kernel.objectOf, hpart.descriptors d _ hd]
      refine .inr ⟨a, rfl, hpart.mappings.eq_none (Option.isNone_iff_eq_none.mp hfree), ?_⟩
      rw [Kernel.effect, Kernel.changes, hobject]
      rfl

theorem environment.munmap {r : (Op.munmap a length).Res}
    (henv : environment reliable (.munmap a length) r h h') :
    (∃ e, r = .error e ∧ h' = h ∧ ¬ reliable) ∨ r = .ok () ∧ h' = h.setMapping a none := by
  obtain ⟨⟨k, -, -, rfl⟩, hreliable⟩ := henv
  cases r with
  | error e =>
      refine .inl ⟨e, rfl, rfl, ?_⟩
      intro hyes
      cases hreliable hyes
  | ok v => exact .inr ⟨rfl, rfl⟩

theorem environment.close {r : (Op.close d).Res}
    (henv : environment reliable (.close d) r h h') :
    h' = h.setDescriptor d none ∧ (reliable → r = .ok ()) := by
  obtain ⟨⟨k, -, -, rfl⟩, hreliable⟩ := henv
  cases r with
  | error e => exact ⟨rfl, hreliable⟩
  | ok v => exact ⟨rfl, hreliable⟩

theorem environment.shmUnlink {r : (Op.shmUnlink name).Res}
    (henv : environment reliable (.shmUnlink name) r h h') :
    (∃ e, r = .error e ∧ h' = h ∧ ¬ reliable) ∨ r = .ok () ∧ h' = h.setName name none := by
  obtain ⟨⟨k, -, -, rfl⟩, hreliable⟩ := henv
  cases r with
  | error e =>
      refine .inl ⟨e, rfl, rfl, ?_⟩
      intro hyes
      cases hreliable hyes
  | ok v => exact .inr ⟨rfl, rfl⟩

theorem environment.socket {r : Op.socket.Res}
    (henv : environment reliable .socket r h h') :
    (∃ e, r = .error e ∧ h' = h) ∨ ∃ d, r = .ok d ∧ h.descriptors d = none ∧
      h' = h.setDescriptor d (some .socket) := by
  obtain ⟨⟨k, hpart, hpossible, rfl⟩, -⟩ := henv
  cases r with
  | error e => exact .inl ⟨e, rfl, rfl⟩
  | ok d =>
      exact .inr ⟨d, rfl, hpart.descriptors.eq_none (Option.isNone_iff_eq_none.mp hpossible), rfl⟩

end Caller

end EventEngine.Posix
