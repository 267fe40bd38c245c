import EventEngine.Posix.Ledger
import EventEngine.Shm.Names

/-!
# What is acquired is released

An object at rest has nothing but what its fields stand for. When a call destroys its object or
replaces what the object had, no descriptor of it is left, and of its mappings only one that
`munmap` refused to remove. So the calls of any number of objects release each descriptor once,
and each mapping once or, if that fails every time, never.
-/

namespace EventEngine.Shm

open Concurrency Posix

/-- The table has nothing but what the fields of the segment stand for. -/
structure SharedMemorySegment.Exact (segment : SharedMemorySegment) (h : Table) : Prop where
  descriptor : ∀ d, h.descriptors d ≠ none → segment.descriptor = some d
  mapping : ∀ a, h.mappings a ≠ none → segment.address = some a

/-- No descriptor is left, and no mapping but those that were refused. -/
structure Settled (refused : Address → Bool) (h : Table) : Prop where
  descriptors : ∀ d, h.descriptors d = none
  mappings : ∀ a, h.mappings a ≠ none → refused a = true

/-- Note the mappings that `munmap` refuses to remove. -/
def note : (op : Op) → op.Res → (Address → Bool) → Address → Bool
  | .munmap a _, .error _, refused => Function.update refused a true
  | .mmap _ _, .ok a, refused => Function.update refused a false
  | _, _, refused => refused

/-- A history of what the caller has, with the mappings that were refused. -/
abbrev Account := Table × (Address → Bool)

/-- What a caller knows of a call that may always fail. -/
def accounting : Environment posixAccess Account := fun op r x x' =>
  environment False op r x.1 x'.1 ∧ x'.2 = note op r x.2

/-- `post` holds of the account at the end of the process. -/
abbrev Accounts {ℓ α : Type} (p : Process posixAccess ℓ α) (x : Account)
    (post : α → Account → Prop) : Prop :=
  p.Meets accounting (fun _ _ _ => True) (fun a _ x => post a x) x

/-- A contract for the table is one for the account. -/
theorem Accounts.of_keeps {ℓ α : Type} {p : Process posixAccess ℓ α} {x : Account}
    {post : α → Table → Prop} (hp : Keeps False p x.1 post) :
    Accounts p x fun a x => post a x.1 := by
  have hcomap : p.Meets accounting _ _ x := hp.comap Prod.fst fun _ _ _ _ henv => henv.1
  exact hcomap.mono_control fun _ _ _ _ => trivial

namespace SharedMemorySegment

variable {ℓ : Type} {l : ℓ} {self : SharedMemorySegment} {x : Account}

/-- A default segment, or one that was moved from, has nothing. -/
theorem exact_empty (segment : SharedMemorySegment) : segment.Exact .empty where
  descriptor _ h := absurd rfl h
  mapping _ h := absurd rfl h

theorem closeDescriptor_accounts (hexact : self.Exact x.1) :
    Accounts (self.closeDescriptor l) x fun r x' => r.1 = { self with descriptor := none } ∧
      (∀ d, x'.1.descriptors d = none) ∧ x'.1.mappings = x.1.mappings ∧ x'.2 = x.2 := by
  rw [closeDescriptor]
  cases hdescriptor : self.descriptor with
  | none =>
      refine ⟨by rw [← hdescriptor], ?_, rfl, rfl⟩
      intro d
      by_contra hd
      have hsome := hexact.descriptor d hd
      rw [hdescriptor] at hsome
      cases hsome
  | some d =>
      apply Method.perform_meets trivial
      rintro r ⟨h1, refused⟩ ⟨henv, hnote⟩
      obtain ⟨rfl, -⟩ := henv.close
      have hnone : ∀ d', (x.1.setDescriptor d none).descriptors d' = none := by
        intro d'
        rw [Table.setDescriptor_descriptors]
        by_cases hd : d' = d
        · subst hd
          exact Function.update_self _ _ _
        · rw [Function.update_of_ne hd]
          by_contra hd'
          have hsome := hexact.descriptor d' hd'
          rw [hdescriptor] at hsome
          exact hd (Option.some.inj hsome).symm
      cases r with
      | error e => exact ⟨rfl, hnone, rfl, hnote⟩
      | ok v => exact ⟨rfl, hnone, rfl, hnote⟩

theorem unmap_accounts (hexact : self.Exact x.1) :
    Accounts (self.unmap l) x fun r x' => r.1.Exact x'.1 ∧
      ∀ a, x'.1.mappings a ≠ none → x'.2 a = true := by
  rw [unmap]
  cases haddress : self.address with
  | none =>
      refine ⟨hexact, ?_⟩
      intro a ha
      have hsome := hexact.mapping a ha
      rw [haddress] at hsome
      cases hsome
  | some a =>
      apply Method.perform_meets trivial
      rintro r ⟨h1, refused⟩ ⟨henv, hnote⟩
      obtain ⟨e, rfl, rfl, -⟩ | ⟨rfl, rfl⟩ := henv.munmap
      · refine ⟨hexact, ?_⟩
        intro b hb
        have hsome := hexact.mapping b hb
        rw [haddress] at hsome
        obtain rfl := Option.some.inj hsome
        rw [hnote]
        exact Function.update_self _ _ _
      · have hnone : ∀ b, (x.1.setMapping a none).mappings b = none := by
          intro b
          rw [Table.setMapping_mappings]
          by_cases hb : b = a
          · subst hb
            exact Function.update_self _ _ _
          · rw [Function.update_of_ne hb]
            by_contra hb'
            have hsome := hexact.mapping b hb'
            rw [haddress] at hsome
            exact hb (Option.some.inj hsome).symm
        exact ⟨⟨hexact.descriptor, fun b hb => absurd (hnone b) hb⟩,
          fun b hb => absurd (hnone b) hb⟩

/-- However often `close_shm` fails, it leaves no descriptor, and no mapping that was not
refused. -/
theorem closeShm_accounts (hexact : self.Exact x.1) :
    Accounts (self.closeShm l) x fun r x' => r.1.Exact x'.1 ∧ Settled x'.2 x'.1 := by
  rw [closeShm]
  apply (unmap_accounts hexact).bind
  rintro ⟨self1, unmapError⟩ l1 x1 ⟨hexact1, hrefused⟩
  apply (closeDescriptor_accounts hexact1).bind
  rintro ⟨self2, closeError⟩ l2 x2 ⟨rfl, hnone, hmappings, hsame⟩
  have hsettled : Exact { self1 with descriptor := none } x2.1 ∧ Settled x2.2 x2.1 := by
    refine ⟨⟨fun d hd => absurd (hnone d) hd, ?_⟩, hnone, ?_⟩
    · intro a ha
      rw [hmappings] at ha
      exact hexact1.mapping a ha
    · intro a ha
      rw [hmappings] at ha
      rw [hsame]
      exact hrefused a ha
  dsimp only
  split
  · exact hsettled
  · split
    · exact hsettled
    · exact hsettled

end SharedMemorySegment

/-- What a call that returns leaves of the account of its object. -/
structure Leaves (outcome : Outcome) (x : Account) : Prop where
  kept : outcome.other = none → ∀ segment, outcome.self = some segment → segment.Exact x.1
  settled : outcome.other ≠ none ∨ outcome.self = none → Settled x.2 x.1

namespace Handles

open SharedMemorySegment

variable {s t : Handles} {h : Handle} {call : Call} {p : Process posixAccess Unit Outcome}
variable {self : SharedMemorySegment} {refused : Address → Bool} {start : Table}

/-- The refused mappings are marked so in the log. -/
def Noted (s : Handles) (h : Handle) (refused : Address → Bool) : Prop :=
  ∀ a, refused a = true → (s.holding h).mappings a ≠ none →
    lastRefused (mappingMarks s.performed a) = true

def TidySlot (s : Handles) (h : Handle) : Slot → Prop
  | .absent => True
  | .idle segment => segment.Exact (s.holding h)
  | .lent segment _ => segment.Exact (s.holding h)
  | .running _ p => ∃ refused, s.Noted h refused ∧ Accounts p (s.holding h, refused) Leaves

/-- The second invariant, of what the calls have acquired and given back. -/
structure Tidy (start : Table) (s : Handles) : Prop where
  ledgers : s.kernel.Ledgers start s.holding s.performed
  slot : ∀ h, s.TidySlot h (s.slots h)

theorem initial_tidy (kernel : Kernel) : Tidy kernel.table (initial kernel) where
  ledgers := Kernel.Ledgers.initial kernel
  slot _ := trivial

/-- A call that moves from no other object. -/
theorem leaves_alone {outcome : Outcome} {x : Account} (hnone : outcome.other = none)
    (hkept : ∀ segment, outcome.self = some segment → segment.Exact x.1)
    (hsettled : outcome.self = none → Settled x.2 x.1) : Leaves outcome x where
  kept _ := hkept
  settled hcase := hsettled (hcase.resolve_left (absurd hnone))

theorem settled_empty : Settled refused .empty where
  descriptors _ := rfl
  mappings _ h := absurd rfl h

/-- A segment that is all that was acquired. -/
theorem mapped_exact {name : Name} {d : Descriptor} {v : Target} {a : Address} {m : Mapping}
    {size : UInt64} {owner : Bool} {table : Table} (hdescriptors : table.descriptors =
      Function.update Table.empty.descriptors d (some v))
    (hmappings : table.mappings = Function.update Table.empty.mappings a (some m)) :
    (mapped name d a size owner).Exact table where
  descriptor d' hd := by
    by_contra hne
    apply hd
    rw [hdescriptors, Function.update_of_ne]
    · rfl
    · rintro rfl
      exact hne rfl
  mapping a' ha := by
    by_contra hne
    apply ha
    rw [hmappings, Function.update_of_ne]
    · rfl
    · rintro rfl
      exact hne rfl

theorem createShm_leaves (name : Name) (size : UInt64) :
    Accounts ((created <$> createShm name size : Method posixAccess Unit Outcome) ())
      (.empty, refused) Leaves := by
  apply (Accounts.of_keeps (createShm_keeps name size .empty)).bind
  rintro r l ⟨table, refused'⟩ hcreated
  cases r with
  | error e =>
      apply leaves_alone rfl
      · intro segment hself
        cases hself
      · intro _
        obtain hsame | ⟨-, v, hname⟩ := hcreated.1
        · rw [hsame]
          exact settled_empty
        · rw [hname]
          exact ⟨fun _ => rfl, fun _ h => absurd rfl h⟩
  | ok self =>
      obtain ⟨d, o, a, rfl, -, -, -, htable⟩ := hcreated
      apply leaves_alone rfl
      · intro segment hself
        cases hself
        rw [htable]
        exact mapped_exact rfl rfl
      · intro hself
        cases hself

theorem attachShm_leaves (name : Name) :
    Accounts ((created <$> attachShm name : Method posixAccess Unit Outcome) ())
      (.empty, refused) Leaves := by
  apply (Accounts.of_keeps (attachShm_keeps name .empty)).bind
  rintro r l ⟨table, refused'⟩ hattached
  cases r with
  | error e =>
      apply leaves_alone rfl
      · intro segment hself
        cases hself
      · intro _
        rw [show table = .empty from hattached]
        exact settled_empty
  | ok self =>
      obtain ⟨d, o, a, size, rfl, -, -, htable⟩ := hattached
      apply leaves_alone rfl
      · intro segment hself
        cases hself
        rw [htable]
        exact mapped_exact rfl rfl
      · intro hself
        cases hself

theorem closeShm_leaves {x : Account} (hexact : self.Exact x.1) :
    Accounts (((fun r => { self := some r.1, result := r.2 }) <$> self.closeShm :
      Method posixAccess Unit Outcome) ()) x Leaves := by
  apply (closeShm_accounts hexact).bind
  rintro r l x' ⟨hexact', -⟩
  apply leaves_alone rfl
  · intro segment hself
    cases hself
    exact hexact'
  · intro hself
    cases hself

/-- `unlink` changes neither descriptors nor mappings. -/
theorem unlink_leaves {x : Account} (howns : self.Owns x.1) (hexact : self.Exact x.1) :
    Accounts (((fun r => { self := some r.1, result := r.2 }) <$> self.unlink :
      Method posixAccess Unit Outcome) ()) x Leaves := by
  apply (Accounts.of_keeps (unlink_keeps howns)).bind
  rintro ⟨self', r⟩ l ⟨table, refused'⟩ hunlinked
  apply leaves_alone rfl
  · intro segment hself
    cases hself
    obtain ⟨rfl, hsame, -⟩ | ⟨-, -, ⟨rfl, -, hcase⟩ | ⟨rfl, hsame, -⟩⟩ := hunlinked
    · rw [hsame]
      exact hexact
    · obtain hname | ⟨hsame, -⟩ := hcase
      · rw [hname]
        exact ⟨hexact.descriptor, hexact.mapping⟩
      · rw [hsame]
        exact ⟨hexact.descriptor, hexact.mapping⟩
    · rw [hsame]
      exact hexact
  · intro hself
    cases hself

theorem destroy_leaves {x : Account} (hexact : self.Exact x.1) :
    Accounts (((fun _ => { self := none }) <$> self.destroy :
      Method posixAccess Unit Outcome) ()) x Leaves := by
  have hdestroy : Accounts ((self.destroy : Method posixAccess Unit Unit) ()) x
      fun _ x' => Settled x'.2 x'.1 := by
    apply (closeShm_accounts hexact).bind
    rintro r l x' ⟨-, hsettled⟩
    exact hsettled
  apply hdestroy.bind
  rintro r l x' hsettled
  apply leaves_alone rfl
  · intro segment hself
    cases hself
  · exact fun _ => hsettled

/-- What the object had is given up before it gets what the other one has. -/
theorem moveAssign_leaves {x : Account} {other : SharedMemorySegment} {leftover : Name}
    (hexact : self.Exact x.1) :
    Accounts (((fun r => { self := some r.1, other := some r.2 }) <$>
      self.moveAssign other leftover : Method posixAccess Unit Outcome) ()) x Leaves := by
  have hassign : Accounts ((self.moveAssign other leftover :
      Method posixAccess Unit (SharedMemorySegment × SharedMemorySegment)) ()) x
      fun _ x' => Settled x'.2 x'.1 := by
    apply (closeShm_accounts hexact).bind
    rintro r l x' ⟨-, hsettled⟩
    exact hsettled
  apply hassign.bind
  rintro r l x' hsettled
  constructor
  · intro hnone
    cases hnone
  · exact fun _ => hsettled

/-- Every call leaves what the invariant needs. -/
theorem process_leaves (hok : s.Ok) (htidy : s.TidySlot h (s.slots h))
    (hprocess : s.process h call = some p) : Accounts p (s.holding h, refused) Leaves := by
  have hslot := hok.slot h
  have hempty : s.slots h = .absent → s.holding h = .empty := by
    intro habsent
    rw [habsent] at hslot
    exact hslot
  cases process_cases hprocess with
  | default habsent =>
      rw [hempty habsent]
      apply leaves_alone rfl
      · intro segment _
        exact exact_empty segment
      · exact fun _ => settled_empty
  | create name size habsent =>
      rw [hempty habsent]
      exact createShm_leaves name size
  | attach name habsent =>
      rw [hempty habsent]
      exact attachShm_leaves name
  | construct other leftover o habsent hidle hne =>
      rw [hempty habsent]
      constructor
      · intro hnone
        cases hnone
      · exact fun _ => settled_empty
  | assignSelf leftover self hself =>
      rw [hself] at htidy
      apply leaves_alone rfl
      · intro segment hsegment
        cases hsegment
        exact htidy
      · intro hnone
        cases hnone
  | assign other leftover self o hself hidle hne =>
      rw [hself] at htidy
      exact moveAssign_leaves htidy
  | close self hself =>
      rw [hself] at htidy
      exact closeShm_leaves htidy
  | unlink self hself =>
      rw [hself] at htidy hslot
      exact unlink_leaves hslot htidy
  | destroy self hself =>
      rw [hself] at htidy
      exact destroy_leaves htidy

/-- The latest mark of a mapping that is noted as refused and still there. -/
theorem note_noted {op : Op} {r : op.Res} {k : Kernel} (hnoted : s.Noted h refused)
    {a : Address} (ha : note op r refused a = true)
    (hmapping : (k.effect op r (s.holding h)).mappings a ≠ none) :
    lastRefused (mappingMarks ((h, ⟨op, r⟩) :: s.performed) a) = true := by
  have hskip : mappingEvent ⟨op, r⟩ = none → refused a = true →
      (s.holding h).mappings a ≠ none →
      lastRefused (mappingMarks ((h, ⟨op, r⟩) :: s.performed) a) = true := by
    intro hevent hrefused hthere
    rw [mappingMarks_cons_none h hevent]
    exact hnoted a hrefused hthere
  cases op with
  | mmap length d =>
      cases r with
      | error e => exact hskip rfl ha hmapping
      | ok b =>
          change Function.update refused b false a = true at ha
          have hab : a ≠ b := by
            rintro rfl
            rw [Function.update_self] at ha
            cases ha
          rw [Function.update_of_ne hab] at ha
          rw [mappingMarks_cons (a := b) h rfl, Function.update_of_ne hab]
          apply hnoted a ha
          change Function.update (s.holding h).mappings b _ a ≠ none at hmapping
          rw [Function.update_of_ne hab] at hmapping
          exact hmapping
  | munmap b length =>
      by_cases hab : a = b
      · subst hab
        cases r with
        | error e =>
            rw [mappingMarks_cons (a := a) h rfl, Function.update_self]
            rfl
        | ok v => exact absurd (Function.update_self _ _ _) hmapping
      · cases r with
        | error e =>
            change Function.update refused b true a = true at ha
            rw [Function.update_of_ne hab] at ha
            rw [mappingMarks_cons (a := b) h rfl, Function.update_of_ne hab]
            exact hnoted a ha hmapping
        | ok v =>
            change Function.update (s.holding h).mappings b none a ≠ none at hmapping
            rw [Function.update_of_ne hab] at hmapping
            rw [mappingMarks_cons (a := b) h rfl, Function.update_of_ne hab]
            exact hnoted a ha hmapping
  | shmCreate name => cases r <;> exact hskip rfl ha hmapping
  | shmOpen name => cases r <;> exact hskip rfl ha hmapping
  | ftruncate d length => cases r <;> exact hskip rfl ha hmapping
  | fstat d => cases r <;> exact hskip rfl ha hmapping
  | close d => cases r <;> exact hskip rfl ha hmapping
  | shmUnlink name => cases r <;> exact hskip rfl ha hmapping
  | socket => cases r <;> exact hskip rfl ha hmapping
  | bind d address port => cases r <;> exact hskip rfl ha hmapping
  | getsockname d => cases r <;> exact hskip rfl ha hmapping
  | getrandom count => cases r <;> exact hskip rfl ha hmapping

/-- What a slot needs depends on what its object has and on the marks of that. -/
theorem TidySlot.frame {slot : Slot} (htidy : s.TidySlot h slot)
    (hholding : t.holding h = s.holding h)
    (hmarks : ∀ a, (s.holding h).mappings a ≠ none →
      mappingMarks t.performed a = mappingMarks s.performed a) : t.TidySlot h slot := by
  cases slot with
  | absent => trivial
  | idle segment =>
      change segment.Exact (t.holding h)
      rw [hholding]
      exact htidy
  | lent segment borrower =>
      change segment.Exact (t.holding h)
      rw [hholding]
      exact htidy
  | running call p =>
      obtain ⟨refused, hnoted, hleaves⟩ := htidy
      refine ⟨refused, ?_, by rw [hholding]; exact hleaves⟩
      intro a ha hmapping
      rw [hholding] at hmapping
      rw [hmarks a hmapping]
      exact hnoted a ha hmapping

/-- A call of `h` is in progress; its process is `p`. -/
structure TidyCall (start : Table) (s : Handles) (h : Handle)
    (p : Process posixAccess Unit Outcome) : Prop where
  ledgers : s.kernel.Ledgers start s.holding s.performed
  others : ∀ x, x ≠ h → s.TidySlot x (s.slots x)
  process : ∃ refused, s.Noted h refused ∧ Accounts p (s.holding h, refused) Leaves

namespace TidyCall

variable {outcome : Outcome}

/-- Where the call ends the object, or hands it over, only refused mappings are left of what it
had. -/
theorem given {u : Unit} (htidy : TidyCall start s h (.done outcome u))
    (hcase : outcome.other ≠ none ∨ outcome.self = none) :
    (∀ d, (s.holding h).descriptors d = none) ∧ ∀ a, (s.holding h).mappings a ≠ none →
      lastRefused (mappingMarks s.performed a) = true := by
  obtain ⟨refused, hnoted, hleaves⟩ := htidy.process
  have hleaves : Leaves outcome (s.holding h, refused) := hleaves
  have hsettled := hleaves.settled hcase
  exact ⟨hsettled.descriptors, fun a ha => hnoted a (hsettled.mappings a ha) ha⟩

/-- A move returns. -/
theorem finish_moved_tidy {u : Unit} {leftover : SharedMemorySegment}
    (htidy : TidyCall start s h (.done outcome u)) (hcall : s.InCall h call (.done outcome u))
    (hmoved : outcome.other = some leftover) : Tidy start (s.finish h call outcome) := by
  obtain ⟨o, hlends, hfinishes⟩ := hcall.process
  have hfinishes : Finishes h o call outcome (s.holding h) := hfinishes
  have hgiven := htidy.given (.inl (by rw [hmoved]; simp))
  obtain ⟨⟨other, hother, hne⟩, hself, -⟩ := hfinishes.moved leftover hmoved
  obtain ⟨segment, rfl, hlent⟩ := hlends other hother hne
  have hexact := htidy.others other hne
  rw [hlent] at hexact
  have hover := s.finish_handedOver hother hmoved hne
  have hledgers : s.kernel.Ledgers start (s.finish h call outcome).holding s.performed := by
    apply htidy.ledgers.reassign
    · intro x
      by_cases hxo : x = other
      · exact .inl (hxo ▸ hover.given)
      · by_cases hx : x = h
        · exact .inr ⟨other, hx ▸ hover.taken⟩
        · exact .inr ⟨x, hover.holding x hx hxo⟩
    · intro x
      by_cases hx : x = h
      · subst hx
        exact .inr hgiven
      · by_cases hxo : x = other
        · exact .inl ⟨h, hxo ▸ hover.taken⟩
        · exact .inl ⟨x, hover.holding x hx hxo⟩
  constructor
  · rw [finish_kernel, finish_performed]
    exact hledgers
  · intro x
    by_cases hx : x = h
    · subst hx
      rw [finish_slot, hself]
      change segment.Exact ((s.finish x call outcome).holding x)
      rw [hover.taken]
      exact hexact
    · by_cases hxo : x = other
      · subst hxo
        rw [hover.leftover]
        change leftover.Exact ((s.finish h call outcome).holding x)
        rw [hover.given]
        exact exact_empty leftover
      · rw [hover.slot x hx hxo]
        refine (htidy.others x hx).frame (hover.holding x hx hxo) fun _ _ => ?_
        rw [finish_performed]

/-- A call that moves from no other object returns. -/
theorem finish_alone_tidy {u : Unit} (htidy : TidyCall start s h (.done outcome u))
    (hmoved : outcome.other = none) : Tidy start (s.finish h call outcome) := by
  obtain ⟨refused, hnoted, hleaves⟩ := htidy.process
  have hleaves : Leaves outcome (s.holding h, refused) := hleaves
  rw [finish_alone s h call hmoved]
  cases hself : outcome.self with
  | some segment =>
      constructor
      · exact htidy.ledgers
      · intro x
        by_cases hx : x = h
        · subst hx
          simp only [Function.update_self]
          exact hleaves.kept hmoved segment hself
        · simp only [Function.update_of_ne hx]
          exact (htidy.others x hx).frame rfl fun _ _ => rfl
  | none =>
      constructor
      · apply htidy.ledgers.reassign
        · intro x
          by_cases hx : x = h
          · subst hx
            exact .inl (Function.update_self _ _ _)
          · exact .inr ⟨x, Function.update_of_ne hx _ _⟩
        · intro x
          by_cases hx : x = h
          · subst hx
            exact .inr (htidy.given (.inr hself))
          · exact .inl ⟨x, Function.update_of_ne hx _ _⟩
      · intro x
        by_cases hx : x = h
        · subst hx
          simp only [Function.update_self]
          trivial
        · simp only [Function.update_of_ne hx]
          exact (htidy.others x hx).frame (Function.update_of_ne hx _ _) fun _ _ => rfl

/-- The call returns. -/
theorem finish_tidy {u : Unit} (htidy : TidyCall start s h (.done outcome u))
    (hcall : s.InCall h call (.done outcome u)) : Tidy start (s.finish h call outcome) := by
  cases hmoved : outcome.other with
  | some leftover => exact htidy.finish_moved_tidy hcall hmoved
  | none => exact htidy.finish_alone_tidy hmoved

/-- The invariant holds wherever the call is. -/
theorem settle_tidy (htidy : TidyCall start s h p) (hcall : s.InCall h call p) :
    Tidy start (s.settle h call p) := by
  cases p with
  | done outcome u => exact htidy.finish_tidy hcall
  | step l op next =>
      constructor
      · exact htidy.ledgers
      · intro x
        by_cases hx : x = h
        · subst hx
          simp only [settle, Function.update_self]
          exact htidy.process
        · simp only [settle, Function.update_of_ne hx]
          exact (htidy.others x hx).frame rfl fun _ _ => rfl

end TidyCall

/-- Lending an object changes nothing of what the objects have. -/
theorem Tidy.lend (htidy : Tidy start s) (h : Handle) (call : Call) :
    Tidy start (s.lend h call) ∧ (s.lend h call).holding = s.holding := by
  unfold Handles.lend
  split
  case h_1 other hother =>
    split
    case isTrue => exact ⟨htidy, rfl⟩
    case isFalse hne =>
      split
      case h_1 o hidle =>
        refine ⟨⟨htidy.ledgers, ?_⟩, rfl⟩
        intro x
        by_cases hx : x = other
        · subst hx
          have hexact := htidy.slot x
          rw [hidle] at hexact
          simp only [Function.update_self]
          exact hexact
        · simp only [Function.update_of_ne hx]
          exact (htidy.slot x).frame rfl fun _ _ => rfl
      case h_2 => exact ⟨htidy, rfl⟩
  case h_2 => exact ⟨htidy, rfl⟩

/-- Every action keeps the second invariant too. -/
theorem next_tidy {a : Action} (hok : s.Ok) (htidy : Tidy start s) (hnext : s.next a = some t) :
    Tidy start t := by
  cases a with
  | begin h call =>
      obtain ⟨p, hprocess, rfl⟩ := Option.map_eq_some_iff.mp hnext
      obtain ⟨hlend, hholding⟩ := htidy.lend h call
      have hleaves : Accounts p (s.holding h, fun _ => false) Leaves :=
        process_leaves hok (htidy.slot h) hprocess
      refine TidyCall.settle_tidy ⟨hlend.ledgers, fun x _ => hlend.slot x, ?_⟩ (hok.begin hprocess)
      refine ⟨fun _ => false, ?_, ?_⟩
      · intro a ha
        cases ha
      · rw [hholding]
        exact hleaves
  | step h answer =>
      simp only [next] at hnext
      split at hnext
      case h_1 call l op next hrunning =>
        obtain ⟨k, hperform, rfl⟩ := Option.map_eq_some_iff.mp hnext
        obtain ⟨hallowed, hcall⟩ :=
          hok.step (⟨h, op, answer op⟩ :: s.performed) hrunning hperform
        have hpossible := (Kernel.perform_cases hperform).1
        refine TidyCall.settle_tidy ⟨?_, ?_, ?_⟩ hcall
        · exact htidy.ledgers.perform hok.shared hallowed hperform
        · intro x hx
          apply (htidy.slot x).frame
          · exact Function.update_of_ne hx _ _
          · intro a ha
            exact hok.shared.mappingMarks_other hallowed hpossible hx.symm ha
        · have hslot := htidy.slot h
          rw [hrunning] at hslot
          obtain ⟨refused, hnoted, -, hleaves⟩ := hslot
          refine ⟨note op (answer op) refused, ?_, ?_⟩
          · intro a ha hmapping
            simp only [Function.update_self] at hmapping
            exact note_noted hnoted ha hmapping
          · simp only [Function.update_self]
            exact hleaves (answer op) _
              ⟨⟨⟨s.kernel, hok.shared.part h, hpossible, rfl⟩, False.elim⟩, rfl⟩
      case h_2 => cases hnext

theorem reaches_tidy {kernel : Kernel} (hrun : Reaches next anyAction (initial kernel) s) :
    s.Ok ∧ Tidy kernel.table s := by
  apply hrun.invariant (I := fun s => s.Ok ∧ Tidy kernel.table s)
  · exact ⟨initial_ok kernel, initial_tidy kernel⟩
  · rintro s a t ⟨hok, htidy⟩ - hnext
    exact ⟨next_ok hok hnext, next_tidy hok htidy hnext⟩

end Handles

/-- The fields of an object that is in no call, or lent to one. -/
def Slot.segment : Slot → Option SharedMemorySegment
  | .idle segment => some segment
  | .lent segment _ => some segment
  | _ => none

/-- The fields of the segment name the descriptors and the mappings of the table. -/
structure SharedMemorySegment.Names (segment : SharedMemorySegment) (h : Table) : Prop where
  descriptor : ∀ d, segment.descriptor = some d ↔ h.descriptors d ≠ none
  address : ∀ a, segment.address = some a ↔ h.mappings a ≠ none

theorem SharedMemorySegment.Exact.names {segment : SharedMemorySegment} {h : Table}
    (hexact : segment.Exact h) (howns : segment.Owns h) : segment.Names h where
  descriptor d := by
    constructor
    · intro hd
      obtain ⟨o, ho⟩ := howns.descriptor d hd
      rw [ho]
      simp
    · exact hexact.descriptor d
  address a := by
    constructor
    · intro ha
      obtain ⟨o, ho⟩ := howns.mapping a ha
      rw [ho]
      simp
    · exact hexact.mapping a

namespace Handles

variable {s : Handles} {start : Table}

theorem Tidy.names (htidy : Tidy start s) (hok : s.Ok) {h : Handle}
    {segment : SharedMemorySegment} (hsegment : (s.slots h).segment = some segment) :
    segment.Names (s.holding h) := by
  have hslot := hok.slot h
  have hexact := htidy.slot h
  cases hcase : s.slots h with
  | absent =>
      rw [hcase] at hsegment
      cases hsegment
  | idle o =>
      rw [hcase] at hsegment hslot hexact
      cases hsegment
      exact hexact.names hslot
  | lent o borrower =>
      rw [hcase] at hsegment hslot hexact
      cases hsegment
      exact hexact.names hslot.1
  | running call p =>
      rw [hcase] at hsegment
      cases hsegment

/-- Without objects nothing is held but mappings that could not be removed. -/
theorem Tidy.destroyed (htidy : Tidy start s) (hok : s.Ok)
    (habsent : ∀ h, s.slots h = .absent) :
    (∀ d, held (descriptorMarks s.performed d) = none) ∧
      ∀ a, held (mappingMarks s.performed a) ≠ none →
        lastRefused (mappingMarks s.performed a) = true := by
  have hempty : ∀ h, s.holding h = .empty := by
    intro h
    have hslot := hok.slot h
    rw [habsent h] at hslot
    exact hslot
  constructor
  · intro d
    by_contra hheld
    obtain hrefused | ⟨h, hh⟩ := htidy.ledgers.descriptors.lost d hheld
    · rw [lastRefused_descriptorMarks] at hrefused
      cases hrefused
    · rw [hempty h] at hh
      exact hh rfl
  · intro a hheld
    obtain hrefused | ⟨h, hh⟩ := htidy.ledgers.mappings.lost a hheld
    · exact hrefused
    · rw [hempty h] at hh
      exact absurd rfl hh

/-- Whichever calls fail: the fields of an object name exactly what it has, and no two objects
have the same descriptor or mapping, in calls or not. Every descriptor is acquired and closed in
turn. A mapping is passed to `munmap` only between its acquisition and its release, and with the
length it was acquired with. Once all objects are destroyed, every descriptor was closed as often
as it was acquired; what is left was there at the start, or is a mapping whose latest `munmap`
failed. -/
theorem resources_released_once {kernel : Kernel}
    (hrun : Reaches next anyAction (initial kernel) s) :
    (∀ h segment, (s.slots h).segment = some segment → segment.Names (s.holding h)) ∧
    (∀ h h', h ≠ h' → ApartFrom (s.holding h).descriptors (s.holding h').descriptors ∧
      ApartFrom (s.holding h).mappings (s.holding h').mappings) ∧
    (∀ d, Paired (descriptorMarks s.performed d)) ∧
    (∀ a, Paired (mappingMarks s.performed a)) ∧
    ((∀ h, s.slots h = .absent) →
      (∀ d, (descriptorMarks s.performed d).countP Mark.isAcquired =
        (descriptorMarks s.performed d).countP Mark.isReleased) ∧
      (∀ d v, s.kernel.table.descriptors d = some v → kernel.table.descriptors d = some v) ∧
      ∀ a m, s.kernel.table.mappings a = some m → kernel.table.mappings a = some m ∨
        (mappingMarks s.performed a).head? = some (.refused m.length)) := by
  obtain ⟨hok, htidy⟩ := reaches_tidy hrun
  refine ⟨fun h segment => htidy.names hok, ?_, htidy.ledgers.descriptors.paired,
    htidy.ledgers.mappings.paired, ?_⟩
  · intro h h' hne
    have hapart := hok.shared.apart h h' hne
    exact ⟨hapart.descriptors, hapart.mappings⟩
  · intro habsent
    obtain ⟨hclosed, hrefused⟩ := htidy.destroyed hok habsent
    refine ⟨?_, ?_, ?_⟩
    · intro d
      have hcount := (htidy.ledgers.descriptors.paired d).count
      rw [hclosed d] at hcount
      exact hcount
    · intro d v hd
      obtain hstart | hheld := htidy.ledgers.descriptors.left d v hd
      · exact hstart
      · rw [hclosed d] at hheld
        cases hheld
    · intro a m ha
      obtain hstart | hheld := htidy.ledgers.mappings.left a m ha
      · exact .inl hstart
      · have hlast := hrefused a (by rw [hheld]; simp)
        cases hmarks : mappingMarks s.performed a with
        | nil =>
            rw [hmarks] at hheld
            cases hheld
        | cons mark older =>
            rw [hmarks] at hheld hlast
            cases mark with
            | acquired v => cases hlast
            | released v => cases hlast
            | refused v =>
                cases hheld
                exact .inr rfl

/-- As `sampleAnswer`, but `munmap` fails. -/
def sampleFailure : (op : Op) → op.Res
  | .munmap _ _ => .error einval
  | op => sampleAnswer op

/-- An object is created, closed in vain, closed again and destroyed. -/
def sampleClosing : List Action :=
  [.begin 0 (.create (ascii "/ring") 64), .step 0 sampleAnswer, .step 0 sampleAnswer,
    .step 0 sampleAnswer, .begin 0 .close, .step 0 sampleFailure, .step 0 sampleAnswer,
    .begin 0 .close, .step 0 sampleAnswer, .begin 0 .destroy]

theorem resources_released_once_sample :
    ∃ s, runActions next anyAction (initial {}) sampleClosing = some s ∧
      mappingMarks s.performed 4096 = [.released 64, .refused 64, .acquired 64] ∧
      Paired (mappingMarks s.performed 4096) ∧ Paired (descriptorMarks s.performed 3) := by
  have hsample : (runActions next anyAction (initial {}) sampleClosing).map (fun s =>
      mappingMarks s.performed 4096) = some [.released 64, .refused 64, .acquired 64] := by
    rfl
  obtain ⟨s, hs, hmarks⟩ := Option.map_eq_some_iff.mp hsample
  obtain ⟨-, -, hdescriptors, hmappings, -⟩ :=
    resources_released_once (reaches_of_runActions hs)
  exact ⟨s, hs, hmarks, hmappings 4096, hdescriptors 3⟩

end Handles

end EventEngine.Shm
