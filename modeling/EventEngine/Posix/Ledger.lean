import EventEngine.Posix.Kernel

/-!
# Ledgers

The marks of a resource tell its history, newest first: it was acquired, an attempt to release
it was refused, it was released. A ledger connects the marks of all resources with the table of
a kernel and with what the parties have.
-/

namespace EventEngine.Posix

/-- What happened to a resource; `v` is what it is acquired and released with. -/
inductive Mark (σ : Type) where
  | acquired (v : σ)
  | refused (v : σ)
  | released (v : σ)
  deriving DecidableEq, Repr

section Marks

variable {σ κ E : Type} {marks : List (Mark σ)}

def Mark.isAcquired : Mark σ → Bool
  | .acquired _ => true
  | _ => false

def Mark.isReleased : Mark σ → Bool
  | .released _ => true
  | _ => false

/-- What the resource was acquired with, unless it was released. -/
def held : List (Mark σ) → Option σ
  | .acquired v :: _ => some v
  | .refused v :: _ => some v
  | _ => none

/-- The latest attempt to release the resource was refused. -/
def lastRefused : List (Mark σ) → Bool
  | .refused _ :: _ => true
  | _ => false

/-- Nothing is acquired twice or released twice without the other in between, and everything
is released with what it was acquired with. -/
def Paired : List (Mark σ) → Prop
  | [] => True
  | .acquired _ :: older => held older = none ∧ Paired older
  | .refused v :: older => held older = some v ∧ Paired older
  | .released v :: older => held older = some v ∧ Paired older

/-- As many are released as were acquired, but for one that is held. -/
theorem Paired.count (h : Paired marks) :
    marks.countP Mark.isAcquired =
      marks.countP Mark.isReleased + if (held marks).isSome then 1 else 0 := by
  induction marks with
  | nil => rfl
  | cons mark older ih =>
      cases mark with
      | acquired v =>
          obtain ⟨hnone, holder⟩ := h
          have hcount := ih holder
          rw [hnone] at hcount
          rw [List.countP_cons_of_pos rfl, List.countP_cons_of_neg (by simp [Mark.isReleased]),
            hcount]
          rfl
      | refused v =>
          obtain ⟨hsome, holder⟩ := h
          have hcount := ih holder
          rw [hsome] at hcount
          rw [List.countP_cons_of_neg (by simp [Mark.isAcquired]),
            List.countP_cons_of_neg (by simp [Mark.isReleased]), hcount]
          rfl
      | released v =>
          obtain ⟨hsome, holder⟩ := h
          have hcount := ih holder
          rw [hsome] at hcount
          rw [List.countP_cons_of_neg (by simp [Mark.isAcquired]), List.countP_cons_of_pos rfl,
            hcount]
          rfl

variable [DecidableEq κ] {event : E → Option (κ × Mark σ)} {e : E} {log : List E} {a : κ}
variable {mark : Mark σ}

/-- The marks of a resource in a log, newest first. -/
def marksOf (event : E → Option (κ × Mark σ)) (log : List E) (a : κ) : List (Mark σ) :=
  log.filterMap fun e => (event e).bind fun x => if x.1 = a then some x.2 else none

theorem marksOf_cons_none (he : event e = none) :
    marksOf event (e :: log) = marksOf event log := by
  funext a
  apply List.filterMap_cons_none
  rw [he]
  rfl

theorem marksOf_cons_some (he : event e = some (a, mark)) :
    marksOf event (e :: log) =
      Function.update (marksOf event log) a (mark :: marksOf event log a) := by
  funext b
  by_cases hb : b = a
  · subst hb
    rw [Function.update_self]
    apply List.filterMap_cons_some
    rw [he, Option.bind_some, if_pos rfl]
  · rw [Function.update_of_ne hb]
    apply List.filterMap_cons_none
    rw [he, Option.bind_some, if_neg (fun hab => hb hab.symm)]

end Marks

/-- The marks agree with the table and with the parts of it; `start` was there before. What is
held is in some part, unless the latest attempt to release it was refused. -/
structure Ledger {ι κ ν σ : Type} (tag : ν → σ) (start table : κ → Option ν)
    (parts : ι → κ → Option ν) (marks : κ → List (Mark σ)) : Prop where
  paired : ∀ a, Paired (marks a)
  present : ∀ a, held (marks a) ≠ none → table a ≠ none
  kept : ∀ i a v, parts i a = some v → held (marks a) = some (tag v)
  lost : ∀ a, held (marks a) ≠ none → lastRefused (marks a) = true ∨ ∃ i, parts i a ≠ none
  left : ∀ a v, table a = some v → start a = some v ∨ held (marks a) = some (tag v)

namespace Ledger

variable {ι κ ν σ E : Type} {tag : ν → σ} {start table : κ → Option ν}
variable {parts parts' : ι → κ → Option ν} {marks : κ → List (Mark σ)} {i : ι} {a : κ} {v : ν}

theorem initial (tag : ν → σ) (start : κ → Option ν) :
    Ledger tag start start (fun (_ : ι) _ => none) fun _ => [] where
  paired _ := trivial
  present _ h := absurd rfl h
  kept _ _ _ h := by cases h
  lost _ h := absurd rfl h
  left _ _ h := .inl h

/-- What the parties have changes hands; what nobody has afterwards could not be released. -/
theorem reassign (h : Ledger tag start table parts marks)
    (hsource : ∀ i a v, parts' i a = some v → ∃ j, parts j a = some v)
    (hkept : ∀ j a, parts j a ≠ none → lastRefused (marks a) = true ∨ ∃ i, parts' i a ≠ none) :
    Ledger tag start table parts' marks where
  paired := h.paired
  present := h.present
  kept i a v hv := by
    obtain ⟨j, hj⟩ := hsource i a v hv
    exact h.kept j a v hj
  lost a ha := by
    obtain hrefused | ⟨j, hj⟩ := h.lost a ha
    · exact .inl hrefused
    · exact hkept j a hj
  left := h.left

variable [DecidableEq ι] [DecidableEq κ]

theorem acquire (h : Ledger tag start table parts marks) (hfree : table a = none)
    (hparts : ∀ j, parts j a = none) (i : ι) (v : ν) :
    Ledger tag start (Function.update table a (some v))
      (Function.update parts i (Function.update (parts i) a (some v)))
      (Function.update marks a (.acquired (tag v) :: marks a)) := by
  have hnew : held (marks a) = none := by
    by_contra hheld
    exact h.present a hheld hfree
  constructor
  · intro b
    by_cases hb : b = a
    · subst hb
      rw [Function.update_self]
      exact ⟨hnew, h.paired b⟩
    · rw [Function.update_of_ne hb]
      exact h.paired b
  · intro b hheld
    by_cases hb : b = a
    · subst hb
      simp
    · rw [Function.update_of_ne hb] at hheld ⊢
      exact h.present b hheld
  · intro j b w hw
    by_cases hb : b = a
    · subst hb
      rw [Function.update_self]
      by_cases hj : j = i
      · subst hj
        rw [Function.update_self, Function.update_self] at hw
        rw [← Option.some.inj hw]
        rfl
      · rw [Function.update_of_ne hj, hparts] at hw
        cases hw
    · rw [Function.update_of_ne hb]
      apply h.kept j
      by_cases hj : j = i
      · subst hj
        rw [Function.update_self, Function.update_of_ne hb] at hw
        exact hw
      · rw [Function.update_of_ne hj] at hw
        exact hw
  · intro b hheld
    by_cases hb : b = a
    · subst hb
      refine .inr ⟨i, ?_⟩
      simp
    · rw [Function.update_of_ne hb] at hheld ⊢
      obtain hrefused | ⟨j, hj⟩ := h.lost b hheld
      · exact .inl hrefused
      · refine .inr ⟨j, ?_⟩
        by_cases hji : j = i
        · subst hji
          rw [Function.update_self, Function.update_of_ne hb]
          exact hj
        · rw [Function.update_of_ne hji]
          exact hj
  · intro b w hw
    by_cases hb : b = a
    · subst hb
      rw [Function.update_self] at hw
      rw [Function.update_self, Option.some.inj hw]
      exact .inr rfl
    · rw [Function.update_of_ne hb] at hw ⊢
      exact h.left b w hw

theorem release (h : Ledger tag start table parts marks) (hpart : parts i a = some v)
    (hothers : ∀ j, j ≠ i → parts j a = none) :
    Ledger tag start (Function.update table a none)
      (Function.update parts i (Function.update (parts i) a none))
      (Function.update marks a (.released (tag v) :: marks a)) := by
  constructor
  · intro b
    by_cases hb : b = a
    · subst hb
      rw [Function.update_self]
      exact ⟨h.kept i b v hpart, h.paired b⟩
    · rw [Function.update_of_ne hb]
      exact h.paired b
  · intro b hheld
    by_cases hb : b = a
    · subst hb
      rw [Function.update_self] at hheld
      exact absurd rfl hheld
    · rw [Function.update_of_ne hb] at hheld ⊢
      exact h.present b hheld
  · intro j b w hw
    have hb : b ≠ a := by
      rintro rfl
      by_cases hj : j = i
      · subst hj
        rw [Function.update_self, Function.update_self] at hw
        cases hw
      · rw [Function.update_of_ne hj, hothers j hj] at hw
        cases hw
    rw [Function.update_of_ne hb]
    apply h.kept j
    by_cases hj : j = i
    · subst hj
      rw [Function.update_self, Function.update_of_ne hb] at hw
      exact hw
    · rw [Function.update_of_ne hj] at hw
      exact hw
  · intro b hheld
    have hb : b ≠ a := by
      rintro rfl
      rw [Function.update_self] at hheld
      exact absurd rfl hheld
    rw [Function.update_of_ne hb] at hheld ⊢
    obtain hrefused | ⟨j, hj⟩ := h.lost b hheld
    · exact .inl hrefused
    · refine .inr ⟨j, ?_⟩
      by_cases hji : j = i
      · subst hji
        rw [Function.update_self, Function.update_of_ne hb]
        exact hj
      · rw [Function.update_of_ne hji]
        exact hj
  · intro b w hw
    have hb : b ≠ a := by
      rintro rfl
      rw [Function.update_self] at hw
      cases hw
    rw [Function.update_of_ne hb] at hw ⊢
    exact h.left b w hw

omit [DecidableEq ι] in
theorem refuse (h : Ledger tag start table parts marks) (hpart : parts i a = some v) :
    Ledger tag start table parts (Function.update marks a (.refused (tag v) :: marks a)) := by
  have hheld := h.kept i a v hpart
  have hsame : ∀ b, held (Function.update marks a (.refused (tag v) :: marks a) b) =
      held (marks b) := by
    intro b
    by_cases hb : b = a
    · subst hb
      rw [Function.update_self, hheld]
      rfl
    · rw [Function.update_of_ne hb]
  constructor
  · intro b
    by_cases hb : b = a
    · subst hb
      rw [Function.update_self]
      exact ⟨hheld, h.paired b⟩
    · rw [Function.update_of_ne hb]
      exact h.paired b
  · intro b
    rw [hsame b]
    exact h.present b
  · intro j b
    rw [hsame b]
    exact h.kept j b
  · intro b hb
    rw [hsame b] at hb
    by_cases hba : b = a
    · subst hba
      rw [Function.update_self]
      exact .inl rfl
    · rw [Function.update_of_ne hba]
      exact h.lost b hb
  · intro b
    rw [hsame b]
    exact h.left b

variable {event : E → Option (κ × Mark σ)} {e : E} {log : List E}

/-- An event that is of no interest. -/
theorem skip (h : Ledger tag start table parts (marksOf event log)) (he : event e = none)
    (i : ι) : Ledger tag start table (Function.update parts i (parts i))
      (marksOf event (e :: log)) := by
  rw [Function.update_eq_self, marksOf_cons_none he]
  exact h

end Ledger

/-! ### The ledgers of a kernel -/

/-- A descriptor is released by `close`, whatever it returns. -/
def descriptorEvent : (op : Op) × op.Res → Option (Descriptor × Mark Unit)
  | ⟨.shmCreate _, .ok d⟩ => some (d, .acquired ())
  | ⟨.shmOpen _, .ok d⟩ => some (d, .acquired ())
  | ⟨.socket, .ok d⟩ => some (d, .acquired ())
  | ⟨.close d, _⟩ => some (d, .released ())
  | _ => none

/-- A mapping is marked with its length. -/
def mappingEvent : (op : Op) × op.Res → Option (Address × Mark UInt64)
  | ⟨.mmap length _, .ok a⟩ => some (a, .acquired length)
  | ⟨.munmap a length, .ok _⟩ => some (a, .released length)
  | ⟨.munmap a length, .error _⟩ => some (a, .refused length)
  | _ => none

/-- The calls that were performed, with the party of each, newest first. -/
abbrev Log (ι : Type) := List (ι × ((op : Op) × op.Res))

def descriptorMarks {ι : Type} (log : Log ι) : Descriptor → List (Mark Unit) :=
  marksOf (fun e => descriptorEvent e.2) log

def mappingMarks {ι : Type} (log : Log ι) : Address → List (Mark UInt64) :=
  marksOf (fun e => mappingEvent e.2) log

section Marks

variable {ι : Type} {log : Log ι} {e : (op : Op) × op.Res} (i : ι)

theorem descriptorMarks_cons {d : Descriptor} {mark : Mark Unit}
    (he : descriptorEvent e = some (d, mark)) :
    descriptorMarks ((i, e) :: log) =
      Function.update (descriptorMarks log) d (mark :: descriptorMarks log d) :=
  marksOf_cons_some he

theorem mappingMarks_cons {a : Address} {mark : Mark UInt64}
    (he : mappingEvent e = some (a, mark)) :
    mappingMarks ((i, e) :: log) =
      Function.update (mappingMarks log) a (mark :: mappingMarks log a) :=
  marksOf_cons_some he

theorem mappingMarks_cons_none (he : mappingEvent e = none) :
    mappingMarks ((i, e) :: log) = mappingMarks log :=
  marksOf_cons_none he

/-- `close` is never refused. -/
theorem lastRefused_descriptorMarks (log : Log ι) (d : Descriptor) :
    lastRefused (descriptorMarks log d) = false := by
  cases hmarks : descriptorMarks log d with
  | nil => rfl
  | cons mark older =>
      have hmem : mark ∈ descriptorMarks log d := by
        rw [hmarks]
        exact List.mem_cons_self
      obtain ⟨e, -, he⟩ := List.mem_filterMap.mp hmem
      obtain ⟨⟨d', mark'⟩, hevent, hmark⟩ := Option.bind_eq_some_iff.mp he
      split at hmark
      case isTrue =>
        obtain rfl : mark' = mark := Option.some.inj hmark
        cases mark' with
        | acquired v => rfl
        | released v => rfl
        | refused v =>
            unfold descriptorEvent at hevent
            beta_reduce at hevent
            split at hevent <;> cases hevent
      case isFalse => cases hmark

end Marks

/-- The calls of a log agree with the kernel and with what the parties have. -/
structure Kernel.Ledgers {ι : Type} (start : Table) (k : Kernel) (holding : ι → Table)
    (log : Log ι) : Prop where
  descriptors : Ledger (fun _ => ()) start.descriptors k.table.descriptors
    (fun i => (holding i).descriptors) (descriptorMarks log)
  mappings : Ledger Mapping.length start.mappings k.table.mappings
    (fun i => (holding i).mappings) (mappingMarks log)

namespace Kernel.Ledgers

variable {ι : Type} [DecidableEq ι] {start : Table} {k k' : Kernel} {holding : ι → Table}
variable {log : Log ι} {i : ι} {op : Op} {r : op.Res}

omit [DecidableEq ι] in
theorem initial (k : Kernel) : k.Ledgers k.table (fun _ : ι => Table.empty) [] where
  descriptors := Ledger.initial _ _
  mappings := Ledger.initial _ _

/-- A call of a party leaves its mark on the descriptor that it obtains or closes. -/
theorem perform_descriptors (h : k.Ledgers start holding log) (hshared : k.Shared holding)
    (hallowed : Allowed (holding i) op) (hpossible : k.possible op r = true) :
    Ledger (fun _ => ()) start.descriptors (k.effect op r k.table).descriptors
      (Function.update (fun j => (holding j).descriptors) i
        (k.effect op r (holding i)).descriptors)
      (descriptorMarks (⟨i, op, r⟩ :: log)) := by
  have hdescriptor : ∀ {d : Descriptor} (v : Target), k.table.descriptors d = none →
      descriptorEvent ⟨op, r⟩ = some (d, .acquired ()) →
      Ledger (fun _ => ()) start.descriptors (Function.update k.table.descriptors d (some v))
        (Function.update (fun j => (holding j).descriptors) i
          (Function.update (holding i).descriptors d (some v)))
        (descriptorMarks (⟨i, op, r⟩ :: log)) := by
    intro d v hfree hevent
    have hnew := h.descriptors.acquire hfree
      (fun j => (hshared.part j).descriptors.eq_none hfree) i v
    rw [descriptorMarks_cons i hevent]
    exact hnew
  cases op with
  | shmCreate name =>
      cases r with
      | error e => exact h.descriptors.skip rfl i
      | ok d =>
          obtain ⟨-, hfree⟩ := Bool.and_eq_true_iff.mp hpossible
          exact hdescriptor _ (Option.isNone_iff_eq_none.mp hfree) rfl
  | shmOpen name =>
      cases r with
      | error e => exact h.descriptors.skip rfl i
      | ok d =>
          obtain ⟨hname, hfree⟩ := Bool.and_eq_true_iff.mp hpossible
          obtain ⟨o, ho⟩ := Option.isSome_iff_exists.mp hname
          have hnew := hdescriptor (.object o) (Option.isNone_iff_eq_none.mp hfree) rfl
          simp only [effect, changes, ho]
          exact hnew
  | socket =>
      cases r with
      | error e => exact h.descriptors.skip rfl i
      | ok d => exact hdescriptor _ (Option.isNone_iff_eq_none.mp hpossible) rfl
  | close d =>
      obtain ⟨v, hv⟩ := Option.ne_none_iff_exists'.mp hallowed
      have hnew := h.descriptors.release hv fun j hne =>
        (hshared.apart i j hne.symm).descriptors.eq_none hallowed
      have hevent : descriptorEvent ⟨.close d, r⟩ = some (d, .released ()) := by
        cases r with
        | error e => rfl
        | ok v => rfl
      rw [descriptorMarks_cons i hevent]
      cases r with
      | error e => exact hnew
      | ok v => exact hnew
  | ftruncate d length => cases r <;> exact h.descriptors.skip rfl i
  | fstat d => cases r <;> exact h.descriptors.skip rfl i
  | mmap length d => cases r <;> exact h.descriptors.skip rfl i
  | munmap a length => cases r <;> exact h.descriptors.skip rfl i
  | shmUnlink name => cases r <;> exact h.descriptors.skip rfl i
  | bind d address port => cases r <;> exact h.descriptors.skip rfl i
  | getsockname d => cases r <;> exact h.descriptors.skip rfl i
  | getrandom count => cases r <;> exact h.descriptors.skip rfl i

/-- A call of a party leaves its mark on the mapping that it makes or removes. -/
theorem perform_mappings (h : k.Ledgers start holding log) (hshared : k.Shared holding)
    (hallowed : Allowed (holding i) op) (hpossible : k.possible op r = true) :
    Ledger Mapping.length start.mappings (k.effect op r k.table).mappings
      (Function.update (fun j => (holding j).mappings) i (k.effect op r (holding i)).mappings)
      (mappingMarks (⟨i, op, r⟩ :: log)) := by
  cases op with
  | mmap length d =>
      cases r with
      | error e => exact h.mappings.skip rfl i
      | ok a =>
          obtain ⟨hobject, hfree⟩ := Bool.and_eq_true_iff.mp hpossible
          obtain ⟨o, ho⟩ := Option.isSome_iff_exists.mp hobject
          have hfree := Option.isNone_iff_eq_none.mp hfree
          have hnew := h.mappings.acquire hfree
            (fun j => (hshared.part j).mappings.eq_none hfree) i ⟨o, length⟩
          rw [mappingMarks_cons (a := a) i rfl]
          simp only [effect, changes, ho]
          exact hnew
  | munmap a length =>
      obtain ⟨o, ho⟩ := hallowed
      cases r with
      | error e =>
          rw [mappingMarks_cons (a := a) i rfl]
          have hnew := h.mappings.refuse ho
          rw [← Function.update_eq_self i fun j => (holding j).mappings] at hnew
          exact hnew
      | ok v =>
          have hnew := h.mappings.release ho fun j hne =>
            (hshared.apart i j hne.symm).mappings.eq_none (by rw [ho]; simp)
          rw [mappingMarks_cons (a := a) i rfl]
          exact hnew
  | shmCreate name => cases r <;> exact h.mappings.skip rfl i
  | shmOpen name => cases r <;> exact h.mappings.skip rfl i
  | ftruncate d length => cases r <;> exact h.mappings.skip rfl i
  | fstat d => cases r <;> exact h.mappings.skip rfl i
  | close d => cases r <;> exact h.mappings.skip rfl i
  | shmUnlink name => cases r <;> exact h.mappings.skip rfl i
  | socket => cases r <;> exact h.mappings.skip rfl i
  | bind d address port => cases r <;> exact h.mappings.skip rfl i
  | getsockname d => cases r <;> exact h.mappings.skip rfl i
  | getrandom count => cases r <;> exact h.mappings.skip rfl i

/-- A party performs a call that gives back only what it has. -/
theorem perform (h : k.Ledgers start holding log) (hshared : k.Shared holding)
    (hallowed : Allowed (holding i) op) (hperform : k.perform op r = some k') :
    k'.Ledgers start (Function.update holding i (k.effect op r (holding i)))
      (⟨i, op, r⟩ :: log) := by
  obtain ⟨hpossible, rfl⟩ := perform_eq hperform
  constructor
  · rw [Table.update_field Table.descriptors]
    exact h.perform_descriptors hshared hallowed hpossible
  · rw [Table.update_field Table.mappings]
    exact h.perform_mappings hshared hallowed hpossible

omit [DecidableEq ι] in
/-- What the parties have changes hands. A table that nobody has afterwards has no descriptors,
and only mappings that could not be removed. -/
theorem reassign {holding' : ι → Table} (h : k.Ledgers start holding log)
    (hsource : ∀ i, holding' i = .empty ∨ ∃ j, holding' i = holding j)
    (hkept : ∀ j, (∃ i, holding' i = holding j) ∨
      (∀ d, (holding j).descriptors d = none) ∧
        ∀ a, (holding j).mappings a ≠ none → lastRefused (mappingMarks log a) = true) :
    k.Ledgers start holding' log where
  descriptors := by
    apply h.descriptors.reassign
    · intro i d v hv
      obtain hempty | ⟨j, hj⟩ := hsource i
      · rw [hempty] at hv
        cases hv
      · exact ⟨j, hj ▸ hv⟩
    · intro j d hd
      obtain ⟨i, hi⟩ | ⟨hnone, -⟩ := hkept j
      · exact .inr ⟨i, hi ▸ hd⟩
      · exact absurd (hnone d) hd
  mappings := by
    apply h.mappings.reassign
    · intro i a v hv
      obtain hempty | ⟨j, hj⟩ := hsource i
      · rw [hempty] at hv
        cases hv
      · exact ⟨j, hj ▸ hv⟩
    · intro j a ha
      obtain ⟨i, hi⟩ | ⟨-, hrefused⟩ := hkept j
      · exact .inr ⟨i, hi ▸ ha⟩
      · exact .inl (hrefused a ha)

end Kernel.Ledgers

/-- A call of another party leaves no mark on a mapping. -/
theorem Kernel.Shared.mappingMarks_other {ι : Type} [DecidableEq ι] {k : Kernel}
    {holding : ι → Table} {log : Log ι} {i j : ι} {op : Op} {r : op.Res} {a : Address}
    (hshared : k.Shared holding) (hallowed : Allowed (holding i) op)
    (hpossible : k.possible op r = true) (hne : i ≠ j) (ha : (holding j).mappings a ≠ none) :
    mappingMarks ((i, ⟨op, r⟩) :: log) a = mappingMarks log a := by
  cases hevent : mappingEvent ⟨op, r⟩ with
  | none => rw [mappingMarks_cons_none i hevent]
  | some pair =>
      obtain ⟨b, mark⟩ := pair
      rw [mappingMarks_cons i hevent]
      apply Function.update_of_ne
      rintro rfl
      unfold mappingEvent at hevent
      split at hevent
      case h_1 length d b' heq =>
        cases heq
        cases hevent
        obtain ⟨-, hfree⟩ := Bool.and_eq_true_iff.mp hpossible
        exact ha ((hshared.part j).mappings.eq_none (Option.isNone_iff_eq_none.mp hfree))
      case h_2 b' length v heq =>
        cases heq
        cases hevent
        obtain ⟨o, ho⟩ := hallowed
        exact ha ((hshared.apart i j hne).mappings.eq_none (by rw [ho]; simp))
      case h_3 b' length e heq =>
        cases heq
        cases hevent
        obtain ⟨o, ho⟩ := hallowed
        exact ha ((hshared.apart i j hne).mappings.eq_none (by rw [ho]; simp))
      case h_4 => cases hevent

end EventEngine.Posix
