import Mathlib.Data.UInt

/-!
# The gap detector

It follows the session of the first packet, accepts packets whose sequence rises, and counts
those that were skipped.
-/

namespace EventEngine

inductive PacketStatus where
  | accepted
  | duplicateOrOld
  | wrongSession
  deriving DecidableEq, Repr

structure CheckResult where
  status : PacketStatus := .accepted
  gap : UInt64 := 0
  firstMissing : UInt64 := 0
  lastMissing : UInt64 := 0
  deriving DecidableEq, Repr

structure GapDetector where
  activeSession : UInt32 := 0
  lastSequence : UInt64 := 0
  deriving DecidableEq, Repr

namespace GapDetector

/-- The packet is neither foreign nor old. -/
def accept (self : GapDetector) (sessionId : UInt32) (packetSequence : UInt64) :
    CheckResult × GapDetector :=
  let gap := packetSequence - self.lastSequence - 1
  let missing : CheckResult :=
    if gap > 0 then
      { gap, firstMissing := self.lastSequence + 1, lastMissing := packetSequence - 1 }
    else { gap }
  (missing, ⟨sessionId, packetSequence⟩)

/-- `GapDetector::check`, with the detector after it. -/
def check (self : GapDetector) (sessionId : UInt32) (packetSequence : UInt64) :
    CheckResult × GapDetector :=
  if self.activeSession = 0 then self.accept sessionId packetSequence
  else if sessionId ≠ self.activeSession then ({ status := .wrongSession }, self)
  else if packetSequence ≤ self.lastSequence then ({ status := .duplicateOrOld }, self)
  else self.accept self.activeSession packetSequence

variable {self : GapDetector} {sessionId : UInt32} {packetSequence : UInt64}

/-- Whether the detector would accept a packet. -/
def Accepts (self : GapDetector) (sessionId : UInt32) (packetSequence : UInt64) : Prop :=
  self.activeSession = 0 ∨
    sessionId = self.activeSession ∧ self.lastSequence < packetSequence

theorem accept_status : (self.accept sessionId packetSequence).1.status = .accepted := by
  simp only [accept]
  split
  · rfl
  · rfl

theorem accept_gap : (self.accept sessionId packetSequence).1.gap =
    packetSequence - self.lastSequence - 1 := by
  simp only [accept]
  split
  · rfl
  · rfl

/-- What a check does in either case. -/
theorem check_cases (self : GapDetector) (sessionId : UInt32) (packetSequence : UInt64) :
    (self.Accepts sessionId packetSequence ∧
      (self.check sessionId packetSequence).1.status = .accepted ∧
      (self.check sessionId packetSequence).1.gap = packetSequence - self.lastSequence - 1 ∧
      (self.check sessionId packetSequence).2 = ⟨sessionId, packetSequence⟩) ∨
    (¬ self.Accepts sessionId packetSequence ∧
      (self.check sessionId packetSequence).1.status ≠ .accepted ∧
      (self.check sessionId packetSequence).2 = self) := by
  unfold check Accepts
  by_cases hfresh : self.activeSession = 0
  · rw [if_pos hfresh]
    exact .inl ⟨.inl hfresh, accept_status, accept_gap, rfl⟩
  · rw [if_neg hfresh]
    by_cases hsession : sessionId = self.activeSession
    · rw [if_neg (not_not.mpr hsession)]
      by_cases hold : packetSequence ≤ self.lastSequence
      · rw [if_pos hold]
        refine .inr ⟨?_, by simp, rfl⟩
        rintro (h | ⟨-, h⟩)
        · exact hfresh h
        · exact UInt64.not_lt.mpr hold h
      · rw [if_neg hold, ← hsession]
        exact .inl ⟨.inr ⟨rfl, UInt64.not_le.mp hold⟩, accept_status, accept_gap, rfl⟩
    · rw [if_pos hsession]
      refine .inr ⟨?_, by simp, rfl⟩
      rintro (h | ⟨h, -⟩)
      · exact hfresh h
      · exact hsession h

/-- The gap is exactly the number of sequences between the last packet and this one. -/
theorem gap_toNat (h : self.lastSequence < packetSequence) :
    (packetSequence - self.lastSequence - 1).toNat + 1 + self.lastSequence.toNat =
      packetSequence.toNat := by
  have hlt := UInt64.lt_iff_toNat_lt.mp h
  have hdiff : (packetSequence - self.lastSequence).toNat =
      packetSequence.toNat - self.lastSequence.toNat :=
    UInt64.toNat_sub_of_le _ _ (UInt64.le_of_lt h)
  have hone : (1 : UInt64) ≤ packetSequence - self.lastSequence := by
    rw [UInt64.le_iff_toNat_le, hdiff]
    change 1 ≤ _
    omega
  rw [UInt64.toNat_sub_of_le _ _ hone, hdiff]
  change packetSequence.toNat - self.lastSequence.toNat - 1 + 1 + _ = _
  omega

/-- The ends of the range that an accepted packet reports. -/
theorem accept_range (h : self.lastSequence < packetSequence)
    (hgap : packetSequence - self.lastSequence - 1 ≠ 0) :
    (self.accept sessionId packetSequence).1.firstMissing.toNat = self.lastSequence.toNat + 1 ∧
      (self.accept sessionId packetSequence).1.lastMissing.toNat = packetSequence.toNat - 1 := by
  have hlt := UInt64.lt_iff_toNat_lt.mp h
  have hbound := packetSequence.toNat_lt
  have hpos : packetSequence - self.lastSequence - 1 > 0 := UInt64.pos_iff_ne_zero.mpr hgap
  have hone : (1 : UInt64) ≤ packetSequence := by
    rw [UInt64.le_iff_toNat_le]
    change 1 ≤ _
    omega
  simp only [accept, if_pos hpos]
  constructor
  · rw [UInt64.toNat_add, UInt64.toNat_one, Nat.mod_eq_of_lt (by omega)]
  · rw [UInt64.toNat_sub_of_le _ _ hone]
    rfl

/-- An accepted packet is answered by `accept`. -/
theorem check_accepted (h : self.Accepts sessionId packetSequence) :
    self.check sessionId packetSequence = self.accept sessionId packetSequence := by
  unfold check
  obtain hfresh | ⟨hsession, hlt⟩ := h
  · rw [if_pos hfresh]
  · split
    · rfl
    · rw [if_neg (not_not.mpr hsession), if_neg (UInt64.not_le.mpr hlt), hsession]

/-- A rejected packet reports nothing. -/
theorem check_rejected (h : ¬ self.Accepts sessionId packetSequence) :
    (self.check sessionId packetSequence).1.gap = 0 := by
  unfold check
  split
  case isTrue hfresh => exact absurd (.inl hfresh) h
  case isFalse =>
    split
    case isTrue => rfl
    case isFalse hsession =>
      split
      case isTrue => rfl
      case isFalse hlt =>
        exact absurd (.inr ⟨not_not.mp hsession, UInt64.not_le.mp hlt⟩) h

end GapDetector

end EventEngine
