import EventEngine.Shm.Segment

/-!
# What the calls on a segment do to the table of their caller

Each contract says what the caller has afterwards. Where giving back may fail, something of a
failed creation can be left under its name, and a mapping that could not be removed stays with
the segment.
-/

namespace EventEngine.Shm

open Concurrency Memory Posix

namespace SharedMemorySegment

variable {ℓ : Type} {l : ℓ} {reliable : Prop} {h : Table} {name : Name} {size : UInt64}
variable {self : SharedMemorySegment}

/-- The table has what the fields of the segment stand for. -/
structure Owns (segment : SharedMemorySegment) (h : Table) : Prop where
  name : segment.owner = true → segment.linked = true → ∃ o, h.names segment.name = some o
  descriptor : ∀ d, segment.descriptor = some d → ∃ o, h.descriptors d = some (.object o)
  mapping : ∀ a, segment.address = some a → ∃ o, h.mappings a = some ⟨o, segment.size⟩
  unmapped : segment.address = none → segment.size = 0

/-- A segment without resources. -/
def closed (self : SharedMemorySegment) : SharedMemorySegment :=
  { self with descriptor := none, address := none, size := 0 }

/-- A failed creation gives back what it can. -/
theorem cleanUpFailedCreation_keeps {d : Descriptor} {o : Object} {t : Target}
    (hname : h.names name = none) (hd : h.descriptors d = none) :
    Keeps reliable (cleanUpFailedCreation name d l)
      ((h.setName name (some o)).setDescriptor d (some t))
      (fun _ h' => (∃ v, h' = h.setName name v) ∧ (reliable → h' = h)) := by
  apply Method.perform_meets
  · simp [Allowed]
  intro r h1 henv
  obtain ⟨rfl, -⟩ := henv.close
  rw [Table.setDescriptor_undo (by simpa using hd)]
  apply Method.perform_meets
  · simp [Allowed]
  intro r h2 henv
  obtain ⟨e, -, rfl, hunreliable⟩ | ⟨-, rfl⟩ := henv.shmUnlink
  · exact ⟨⟨some o, rfl⟩, fun hreliable => absurd hreliable hunreliable⟩
  · rw [Table.setName_undo hname]
    refine ⟨⟨none, ?_⟩, fun _ => rfl⟩
    rw [Table.setName, ← hname, Function.update_eq_self]

/-- A creation that failed leaves at most its own name, and one that succeeded has made an
object with a descriptor and a mapping. -/
def Created (reliable : Prop) (name : Name) (size : UInt64) (h : Table) :
    Except SegmentError SharedMemorySegment → Table → Prop
  | .error _, h' => (h' = h ∨ h.names name = none ∧ ∃ v, h' = h.setName name v) ∧
      (reliable → h' = h)
  | .ok self, h' => ∃ d o a, self = mapped name d a size true ∧ h.names name = none ∧
      h.descriptors d = none ∧ h.mappings a = none ∧
      h' = ((h.setName name (some o)).setDescriptor d (some (.object o))).setMapping a
        (some ⟨o, size⟩)

theorem createShm_keeps (name : Name) (size : UInt64) (h : Table) :
    Keeps reliable (createShm name size l) h (Created reliable name size h) := by
  rw [createShm]
  split
  · exact ⟨.inl rfl, fun _ => rfl⟩
  apply Method.perform_meets trivial
  intro r h1 henv
  obtain ⟨e, rfl, rfl⟩ | ⟨d, o, rfl, hname, hd, rfl⟩ := henv.shmCreate
  · exact ⟨.inl rfl, fun _ => rfl⟩
  apply Method.perform_meets
  · exact ⟨name, o, by simp, by simp⟩
  intro r h2 henv
  obtain rfl := henv.same (fun k => by cases r <;> rfl)
  cases r with
  | error e =>
      apply (cleanUpFailedCreation_keeps hname hd).bind
      rintro - - h' ⟨hleft, hreliable⟩
      exact ⟨.inr ⟨hname, hleft⟩, hreliable⟩
  | ok v =>
      apply Method.perform_meets trivial
      intro r h3 henv
      obtain ⟨e, rfl, rfl⟩ | ⟨a, rfl, ha, rfl⟩ := henv.mmap (o := o) (by simp)
      · apply (cleanUpFailedCreation_keeps hname hd).bind
        rintro - - h' ⟨hleft, hreliable⟩
        exact ⟨.inr ⟨hname, hleft⟩, hreliable⟩
      · exact ⟨d, o, a, rfl, hname, hd, ha, rfl⟩

/-- An attachment that failed leaves nothing. -/
def Attached (name : Name) (h : Table) :
    Except SegmentError SharedMemorySegment → Table → Prop
  | .error _, h' => h' = h
  | .ok self, h' => ∃ d o a size, self = mapped name d a size false ∧
      h.descriptors d = none ∧ h.mappings a = none ∧
      h' = (h.setDescriptor d (some (.object o))).setMapping a (some ⟨o, size⟩)

theorem attachShm_keeps (name : Name) (h : Table) :
    Keeps reliable (attachShm name l) h (Attached name h) := by
  have hclose : ∀ (d : Descriptor) (t : Target) (e : SegmentError),
      h.descriptors d = none →
      Keeps reliable ((do
        let _ ← perform (.close d)
        return .error e : Method posixAccess ℓ (Except SegmentError SharedMemorySegment)) l)
        (h.setDescriptor d (some t)) (Attached name h) := by
    intro d t e hd
    apply Method.perform_meets
    · simp [Allowed]
    intro r h1 henv
    obtain ⟨rfl, -⟩ := henv.close
    exact Table.setDescriptor_undo hd _
  rw [attachShm]
  split
  · rfl
  apply Method.perform_meets trivial
  intro r h1 henv
  obtain ⟨e, rfl, rfl⟩ | ⟨d, o, rfl, hd, rfl⟩ := henv.shmOpen
  · rfl
  apply Method.perform_meets trivial
  intro r h2 henv
  obtain rfl := henv.same (fun k => by cases r <;> rfl)
  cases r with
  | error e => exact hclose d _ _ hd
  | ok status =>
      dsimp only
      split
      · exact hclose d _ _ hd
      · apply Method.perform_meets trivial
        intro r h3 henv
        obtain ⟨e, rfl, rfl⟩ | ⟨a, rfl, ha, rfl⟩ := henv.mmap (o := o) (by simp)
        · exact hclose d _ _ hd
        · exact ⟨d, o, a, status.toUInt64, rfl, hd, ha, rfl⟩

/-- The mapping is gone, or `munmap` failed. -/
def Unmapped (reliable : Prop) (self : SharedMemorySegment) (h : Table)
    (self' : SharedMemorySegment) (h' : Table) : Prop :=
  (self' = { self with address := none, size := 0 } ∧ h' = h.dropMapping self.address) ∨
    (self' = self ∧ h' = h ∧ self.address ≠ none ∧ ¬ reliable)

theorem unmap_keeps (howns : self.Owns h) :
    Keeps reliable (self.unmap l) h (fun r h' => Unmapped reliable self h r.1 h') := by
  rw [unmap]
  cases haddress : self.address with
  | none =>
      refine .inl ⟨?_, by rw [haddress]; rfl⟩
      rw [← haddress, ← howns.unmapped haddress]
  | some a =>
      apply Method.perform_meets
      · exact howns.mapping a haddress
      intro r h1 henv
      obtain ⟨e, rfl, rfl, hunreliable⟩ | ⟨rfl, rfl⟩ := henv.munmap
      · exact .inr ⟨rfl, rfl, by simp [haddress], hunreliable⟩
      · exact .inl ⟨rfl, by rw [haddress]; rfl⟩

theorem closeDescriptor_keeps
    (howns : ∀ d, self.descriptor = some d → ∃ o, h.descriptors d = some (.object o)) :
    Keeps reliable (self.closeDescriptor l) h (fun r h' =>
      r.1 = { self with descriptor := none } ∧ h' = h.dropDescriptor self.descriptor) := by
  rw [closeDescriptor]
  cases hdescriptor : self.descriptor with
  | none => exact ⟨by rw [← hdescriptor], rfl⟩
  | some d =>
      obtain ⟨o, ho⟩ := howns d hdescriptor
      apply Method.perform_meets
      · simp [Allowed, ho]
      intro r h1 henv
      obtain ⟨rfl, -⟩ := henv.close
      cases r with
      | error e => exact ⟨rfl, rfl⟩
      | ok v => exact ⟨rfl, rfl⟩

/-- What `close_shm` leaves: nothing, or a mapping that could not be removed. -/
def Closed (reliable : Prop) (self : SharedMemorySegment) (h : Table)
    (self' : SharedMemorySegment) (h' : Table) : Prop :=
  (self' = self.closed ∧ h' = (h.dropMapping self.address).dropDescriptor self.descriptor) ∨
    (self' = { self with descriptor := none } ∧ h' = h.dropDescriptor self.descriptor ∧
      self.address ≠ none ∧ ¬ reliable)

theorem closeShm_keeps (howns : self.Owns h) :
    Keeps reliable (self.closeShm l) h (fun r h' => Closed reliable self h r.1 h') := by
  rw [closeShm]
  apply (unmap_keeps howns).bind
  rintro ⟨self1, unmapError⟩ l1 h1 hunmapped
  have hdescriptor : self1.descriptor = self.descriptor ∧
      h1.descriptors = h.descriptors := by
    obtain ⟨rfl, rfl⟩ | ⟨rfl, rfl, -, -⟩ := hunmapped
    · refine ⟨rfl, ?_⟩
      cases self.address <;> rfl
    · exact ⟨rfl, rfl⟩
  apply (closeDescriptor_keeps (by rw [hdescriptor.1, hdescriptor.2]; exact howns.descriptor)).bind
  rintro ⟨self2, closeError⟩ l2 h2 ⟨rfl, rfl⟩
  have hclosed : Closed reliable self h { self1 with descriptor := none }
      (h1.dropDescriptor self1.descriptor) := by
    rw [hdescriptor.1]
    obtain ⟨rfl, rfl⟩ | ⟨rfl, rfl, haddress, hunreliable⟩ := hunmapped
    · exact .inl ⟨rfl, rfl⟩
    · exact .inr ⟨rfl, rfl, haddress, hunreliable⟩
  dsimp only
  split
  · exact hclosed
  · split
    · exact hclosed
    · exact hclosed

/-- What `unlink` does, with its result. -/
def Unlinked (reliable : Prop) (self : SharedMemorySegment) (h : Table)
    (self' : SharedMemorySegment) (r : Except SegmentError Unit) (h' : Table) : Prop :=
  (self' = self ∧ h' = h ∧ (self.owner && self.linked) = false) ∨
    (self.owner = true ∧ self.linked = true ∧
      ((self' = { self with linked := false } ∧ r = .ok () ∧
          (h' = h.setName self.name none ∨ h' = h ∧ ¬ reliable)) ∨
        (self' = self ∧ h' = h ∧ r ≠ .ok () ∧ ¬ reliable)))

theorem unlink_keeps (howns : self.Owns h) :
    Keeps reliable (self.unlink l) h (fun r h' => Unlinked reliable self h r.1 r.2 h') := by
  rw [unlink]
  cases howner : self.owner with
  | false => exact .inl ⟨rfl, rfl, by rw [howner]; rfl⟩
  | true =>
      cases hlinked : self.linked with
      | false => exact .inl ⟨rfl, rfl, by rw [hlinked, Bool.and_false]⟩
      | true =>
          obtain ⟨o, ho⟩ := howns.name howner hlinked
          apply Method.perform_meets
          · simp [Allowed, ho]
          intro r h1 henv
          obtain ⟨e, rfl, rfl, hunreliable⟩ | ⟨rfl, rfl⟩ := henv.shmUnlink
          · dsimp only
            split
            · exact .inr ⟨howner, hlinked, .inl ⟨by rw [howner], rfl, .inr ⟨rfl, hunreliable⟩⟩⟩
            · exact .inr ⟨howner, hlinked, .inr ⟨rfl, rfl, by simp, hunreliable⟩⟩
          · exact .inr ⟨howner, hlinked, .inl ⟨by rw [howner], rfl, .inl rfl⟩⟩

end SharedMemorySegment

end EventEngine.Shm
