import EventEngine.Receiver.GapDetector
import Mathlib.Order.Interval.Set.Defs
import Mathlib.Data.Set.Lattice
import Mathlib.Order.CompletePartialOrder
import Mathlib.Data.List.Induction

/-!
# What a detector reports over a whole history

The numbers it accepts and the ranges it reports as missing tile an initial segment of the
positive numbers. `Tiling` says this about lists of numbers; every accepted packet extends
the tiling of its detector by one number, and by one range if it skips some.
-/

namespace EventEngine

/-- The numbers `taken` and the ranges `skipped` are disjoint and cover `1` to `n`. -/
structure Tiling (taken : List Nat) (skipped : List (Nat × Nat)) (n : Nat) : Prop where
  rising : taken.Pairwise (· < ·)
  nonempty : ∀ r ∈ skipped, r.1 ≤ r.2
  disjoint : skipped.Pairwise fun r r' => Disjoint (Set.Icc r.1 r.2) (Set.Icc r'.1 r'.2)
  apart : ∀ k ∈ taken, ∀ r ∈ skipped, k ∉ Set.Icc r.1 r.2
  covers : ∀ k, (k ∈ taken ∨ ∃ r ∈ skipped, k ∈ Set.Icc r.1 r.2) ↔ 1 ≤ k ∧ k ≤ n

namespace Tiling

variable {taken : List Nat} {skipped : List (Nat × Nat)} {n k : Nat}

theorem empty : Tiling [] [] 0 where
  rising := List.Pairwise.nil
  nonempty r hr := by cases hr
  disjoint := List.Pairwise.nil
  apart k hk := by cases hk
  covers k := by
    constructor
    · rintro (h | ⟨r, hr, -⟩)
      · cases h
      · cases hr
    · omega

theorem taken_le (h : Tiling taken skipped n) (hk : k ∈ taken) : k ≤ n :=
  ((h.covers k).mp (.inl hk)).2

theorem skipped_le (h : Tiling taken skipped n) {r : Nat × Nat} (hr : r ∈ skipped) :
    r.2 ≤ n :=
  ((h.covers r.2).mp (.inr ⟨r, hr, h.nonempty r hr, Nat.le_refl _⟩)).2

/-- The next number is taken. -/
theorem take (h : Tiling taken skipped n) : Tiling (taken ++ [n + 1]) skipped (n + 1) where
  rising := by
    rw [List.pairwise_append]
    refine ⟨h.rising, List.pairwise_singleton _ _, ?_⟩
    intro k hk k' hk'
    rw [List.mem_singleton.mp hk']
    exact Nat.lt_succ_of_le (h.taken_le hk)
  nonempty := h.nonempty
  disjoint := h.disjoint
  apart := by
    intro k hk r hr hmem
    obtain hold | hnew := List.mem_append.mp hk
    · exact h.apart k hold r hr hmem
    · have hle := h.skipped_le hr
      have hk := List.mem_singleton.mp hnew
      have hmem' := hmem.2
      omega
  covers := by
    intro k
    have hcovers := h.covers k
    rw [List.mem_append, List.mem_singleton, or_right_comm, hcovers]
    omega

/-- A range is skipped. -/
theorem skip (h : Tiling taken skipped n) (hk : n < k) :
    Tiling taken (skipped ++ [(n + 1, k)]) k where
  rising := h.rising
  nonempty := by
    intro r hr
    obtain hold | hnew := List.mem_append.mp hr
    · exact h.nonempty r hold
    · rw [List.mem_singleton.mp hnew]
      exact hk
  disjoint := by
    rw [List.pairwise_append]
    refine ⟨h.disjoint, List.pairwise_singleton _ _, ?_⟩
    intro r hr r' hr'
    have hle := h.skipped_le hr
    rw [List.mem_singleton.mp hr', Set.disjoint_left]
    intro i hi hi'
    have hlast := hi.2
    have hfirst : n + 1 ≤ i := hi'.1
    omega
  apart := by
    intro i hi r hr hmem
    obtain hold | hnew := List.mem_append.mp hr
    · exact h.apart i hi r hold hmem
    · have hle := h.taken_le hi
      rw [List.mem_singleton.mp hnew] at hmem
      have hfirst : n + 1 ≤ i := hmem.1
      omega
  covers := by
    intro i
    have hcovers := h.covers i
    constructor
    · rintro (htaken | ⟨r, hr, hmem⟩)
      · have hbounds := hcovers.mp (.inl htaken)
        omega
      · obtain hold | hnew := List.mem_append.mp hr
        · have hbounds := hcovers.mp (.inr ⟨r, hold, hmem⟩)
          omega
        · rw [List.mem_singleton.mp hnew] at hmem
          have hfirst : n + 1 ≤ i := hmem.1
          have hlast : i ≤ k := hmem.2
          omega
    · intro hbounds
      by_cases hle : i ≤ n
      · obtain htaken | ⟨r, hr, hmem⟩ := hcovers.mpr ⟨hbounds.1, hle⟩
        · exact .inl htaken
        · exact .inr ⟨r, List.mem_append_left _ hr, hmem⟩
      · refine .inr ⟨(n + 1, k), List.mem_append_right _ (List.mem_singleton_self _), ?_⟩
        exact ⟨Nat.lt_of_not_le hle, hbounds.2⟩

end Tiling

/-- One call of `check` with its result. -/
structure Checked where
  sessionId : UInt32
  packetSequence : UInt64
  result : CheckResult
  deriving DecidableEq, Repr

namespace GapDetector

/-- The calls of a history and the detector after them. -/
def checks (calls : List (UInt32 × UInt64)) : List Checked × GapDetector :=
  calls.foldl (fun log call =>
    let checked := log.2.check call.1 call.2
    (log.1 ++ [⟨call.1, call.2, checked.1⟩], checked.2)) ([], {})

end GapDetector

/-- The numbers that were accepted. -/
def acceptedNumbers (log : List Checked) : List Nat :=
  (log.filter fun c => c.result.status = .accepted).map fun c => c.packetSequence.toNat

/-- The ranges that were reported. -/
def reportedRanges (log : List Checked) : List (Nat × Nat) :=
  (log.filter fun c => c.result.gap ≠ 0).map fun c =>
    (c.result.firstMissing.toNat, c.result.lastMissing.toNat)

theorem acceptedNumbers_append (log : List Checked) (c : Checked) :
    acceptedNumbers (log ++ [c]) = acceptedNumbers log ++
      if c.result.status = .accepted then [c.packetSequence.toNat] else [] := by
  rw [acceptedNumbers, acceptedNumbers, List.filter_append, List.map_append]
  by_cases hstatus : c.result.status = .accepted
  · simp [hstatus]
  · simp [hstatus]

theorem reportedRanges_append (log : List Checked) (c : Checked) :
    reportedRanges (log ++ [c]) = reportedRanges log ++
      if c.result.gap ≠ 0 then [(c.result.firstMissing.toNat, c.result.lastMissing.toNat)]
      else [] := by
  rw [reportedRanges, reportedRanges, List.filter_append, List.map_append]
  by_cases hgap : c.result.gap = 0
  · simp [hgap]
  · simp [hgap]

/-- What a history has led to. -/
structure GapHistory (log : List Checked) (detector : GapDetector) : Prop where
  fresh : detector.activeSession = 0 ↔ log = []
  session : ∀ first, log.head? = some first → first.sessionId = detector.activeSession
  accepted : ∀ c ∈ log, c.result.status = .accepted → c.sessionId = detector.activeSession
  gap : ∀ c ∈ log, c.result.gap ≠ 0 → c.result.status = .accepted ∧
    c.result.gap.toNat = c.result.lastMissing.toNat - c.result.firstMissing.toNat + 1
  tiling : Tiling (acceptedNumbers log) (reportedRanges log) detector.lastSequence.toNat

namespace GapHistory

variable {log : List Checked} {detector : GapDetector} {sessionId : UInt32}
variable {packetSequence : UInt64}

theorem empty : GapHistory [] {} where
  fresh := ⟨fun _ => rfl, fun _ => rfl⟩
  session first h := by cases h
  accepted c hc := by cases hc
  gap c hc := by cases hc
  tiling := .empty

/-- A number above the last one extends the tiling. -/
theorem tiling_accept (sessionId : UInt32)
    (htiling : Tiling (acceptedNumbers log) (reportedRanges log)
      detector.lastSequence.toNat) (hlt : detector.lastSequence < packetSequence) :
    let c : Checked := ⟨sessionId, packetSequence, (detector.accept sessionId packetSequence).1⟩
    Tiling (acceptedNumbers (log ++ [c])) (reportedRanges (log ++ [c])) packetSequence.toNat ∧
      (c.result.gap ≠ 0 →
        c.result.gap.toNat = c.result.lastMissing.toNat - c.result.firstMissing.toNat + 1) := by
  intro c
  have hstatus : c.result.status = .accepted :=
    @GapDetector.accept_status detector sessionId packetSequence
  have hgap : c.result.gap = packetSequence - detector.lastSequence - 1 :=
    @GapDetector.accept_gap detector sessionId packetSequence
  have hsum := GapDetector.gap_toNat hlt
  rw [← hgap] at hsum
  have htaken : acceptedNumbers (log ++ [c]) =
      acceptedNumbers log ++ [packetSequence.toNat] := by
    rw [acceptedNumbers_append, if_pos hstatus]
  by_cases hzero : c.result.gap = 0
  · have hranges : reportedRanges (log ++ [c]) = reportedRanges log := by
      rw [reportedRanges_append, if_neg (not_not.mpr hzero), List.append_nil]
    have hnext : packetSequence.toNat = detector.lastSequence.toNat + 1 := by
      rw [hzero] at hsum
      change 0 + 1 + _ = _ at hsum
      omega
    refine ⟨?_, fun hne => absurd hzero hne⟩
    rw [htaken, hranges, hnext]
    exact htiling.take
  · obtain ⟨hfirst, hlast⟩ := @GapDetector.accept_range detector sessionId packetSequence hlt
      (hgap ▸ hzero)
    have hfirst' : c.result.firstMissing.toNat = detector.lastSequence.toNat + 1 := hfirst
    have hlast' : c.result.lastMissing.toNat = packetSequence.toNat - 1 := hlast
    have hranges : reportedRanges (log ++ [c]) =
        reportedRanges log ++ [(detector.lastSequence.toNat + 1, packetSequence.toNat - 1)] := by
      rw [reportedRanges_append, if_pos hzero, hfirst', hlast']
    have hpos : 0 < c.result.gap.toNat := Nat.pos_of_ne_zero fun h =>
      hzero (UInt64.toNat_inj.mp h)
    constructor
    · have htiled := (htiling.skip (k := packetSequence.toNat - 1) (by omega)).take
      rw [Nat.sub_add_cancel (by omega)] at htiled
      rw [htaken, hranges]
      exact htiled
    · intro _
      rw [hfirst', hlast']
      omega

/-- What is accepted is above everything before. -/
theorem lt_of_accepts (h : GapHistory log detector)
    (haccept : detector.Accepts sessionId packetSequence) (hsequence : packetSequence ≠ 0) :
    detector.lastSequence < packetSequence := by
  obtain hfresh | ⟨-, hlt⟩ := haccept
  · have htiling := h.tiling
    rw [h.fresh.mp hfresh] at htiling
    have hzero : detector.lastSequence.toNat = 0 := by
      by_contra hne
      rcases (htiling.covers 1).mpr ⟨Nat.le_refl 1, Nat.pos_of_ne_zero hne⟩ with
        hmem | ⟨r, hr, -⟩
      · cases hmem
      · cases hr
    rw [UInt64.lt_iff_toNat_lt, hzero]
    exact Nat.pos_of_ne_zero fun heq => hsequence (UInt64.toNat_inj.mp heq)
  · exact hlt

/-- One more check, which accepts its packet. -/
theorem accept (h : GapHistory log detector) (hsession : sessionId ≠ 0)
    (haccept : detector.Accepts sessionId packetSequence)
    (hlt : detector.lastSequence < packetSequence) :
    GapHistory
      (log ++ [⟨sessionId, packetSequence, (detector.accept sessionId packetSequence).1⟩])
      (detector.accept sessionId packetSequence).2 := by
  -- The session of an accepted packet is the one of the packets before it.
  have hsame : log ≠ [] → detector.activeSession = sessionId := by
    intro hne
    obtain hfresh | ⟨hactive, -⟩ := haccept
    · exact absurd (h.fresh.mp hfresh) hne
    · exact hactive.symm
  obtain ⟨htiling, hgap⟩ := tiling_accept sessionId h.tiling hlt
  exact
    { fresh := ⟨fun hfresh => absurd hfresh hsession, fun hnil =>
        absurd hnil (List.append_ne_nil_of_right_ne_nil _ (List.cons_ne_nil _ []))⟩
      session := by
        intro first hfirst
        by_cases hne : log = []
        · rw [hne] at hfirst
          rw [← Option.some.inj hfirst]
          rfl
        · rw [List.head?_append_of_ne_nil _ hne] at hfirst
          exact (h.session first hfirst).trans (hsame hne)
      accepted := by
        intro c hc hstatus
        obtain hold | hnew := List.mem_append.mp hc
        · exact (h.accepted c hold hstatus).trans (hsame (List.ne_nil_of_mem hold))
        · rw [List.mem_singleton.mp hnew]
          rfl
      gap := by
        intro c hc hne
        obtain hold | hnew := List.mem_append.mp hc
        · exact h.gap c hold hne
        · obtain rfl := List.mem_singleton.mp hnew
          exact ⟨@GapDetector.accept_status detector sessionId packetSequence, hgap hne⟩
      tiling := htiling }

/-- One more check, which refuses its packet and reports nothing. -/
theorem refuse {result : CheckResult} (h : GapHistory log detector) (hne : log ≠ [])
    (hstatus : result.status ≠ .accepted) (hgap : result.gap = 0) :
    GapHistory (log ++ [⟨sessionId, packetSequence, result⟩]) detector where
  fresh := ⟨fun hfresh => absurd (h.fresh.mp hfresh) hne, fun hnil =>
    absurd hnil (List.append_ne_nil_of_right_ne_nil _ (List.cons_ne_nil _ []))⟩
  session := by
    intro first hfirst
    rw [List.head?_append_of_ne_nil _ hne] at hfirst
    exact h.session first hfirst
  accepted := by
    intro c hc haccepted
    obtain hold | hnew := List.mem_append.mp hc
    · exact h.accepted c hold haccepted
    · rw [List.mem_singleton.mp hnew] at haccepted
      exact absurd haccepted hstatus
  gap := by
    intro c hc hreported
    obtain hold | hnew := List.mem_append.mp hc
    · exact h.gap c hold hreported
    · rw [List.mem_singleton.mp hnew] at hreported
      exact absurd hgap hreported
  tiling := by
    have htaken : acceptedNumbers (log ++ [⟨sessionId, packetSequence, result⟩]) =
        acceptedNumbers log := by
      rw [acceptedNumbers_append, if_neg hstatus, List.append_nil]
    have hranges : reportedRanges (log ++ [⟨sessionId, packetSequence, result⟩]) =
        reportedRanges log := by
      rw [reportedRanges_append, if_neg (not_not.mpr hgap), List.append_nil]
    rw [htaken, hranges]
    exact h.tiling

/-- One more check. -/
theorem check (h : GapHistory log detector) (hsession : sessionId ≠ 0)
    (hsequence : packetSequence ≠ 0) :
    GapHistory
      (log ++ [⟨sessionId, packetSequence, (detector.check sessionId packetSequence).1⟩])
      (detector.check sessionId packetSequence).2 := by
  by_cases haccept : detector.Accepts sessionId packetSequence
  · rw [GapDetector.check_accepted haccept]
    exact h.accept hsession haccept (h.lt_of_accepts haccept hsequence)
  · have hgap := GapDetector.check_rejected haccept
    have hne : log ≠ [] := fun hnil => haccept (.inl (h.fresh.mpr hnil))
    obtain ⟨haccept', -⟩ | ⟨-, hstatus, hsame⟩ := detector.check_cases sessionId packetSequence
    · exact absurd haccept' haccept
    · rw [hsame]
      exact h.refuse hne hstatus hgap

end GapHistory

namespace GapDetector

variable {calls : List (UInt32 × UInt64)}

theorem checks_append (calls : List (UInt32 × UInt64)) (call : UInt32 × UInt64) :
    checks (calls ++ [call]) =
      ((checks calls).1 ++ [⟨call.1, call.2, ((checks calls).2.check call.1 call.2).1⟩],
        ((checks calls).2.check call.1 call.2).2) := by
  rw [checks, List.foldl_append]
  rfl

/-- The log has the calls in their order. -/
theorem checks_calls (calls : List (UInt32 × UInt64)) :
    (checks calls).1.map (fun c => (c.sessionId, c.packetSequence)) = calls := by
  induction calls using List.reverseRecOn with
  | nil => rfl
  | append_singleton calls call ih =>
      rw [checks_append, List.map_append, ih]
      rfl

/-- Every history of the detector, by induction on the calls. -/
theorem checks_history (hvalid : ∀ call ∈ calls, call.1 ≠ 0 ∧ call.2 ≠ 0) :
    GapHistory (checks calls).1 (checks calls).2 := by
  induction calls using List.reverseRecOn with
  | nil => exact .empty
  | append_singleton calls call ih =>
      obtain ⟨hsession, hsequence⟩ :=
        hvalid call (List.mem_append_right _ (List.mem_singleton_self call))
      have hbefore := ih fun call' hcall' => hvalid call' (List.mem_append_left _ hcall')
      rw [checks_append]
      exact hbefore.check hsession hsequence

/-- Whatever was checked once is refused from then on. -/
theorem checks_refuse (hvalid : ∀ call ∈ calls, call.1 ≠ 0) :
    ∀ call ∈ calls, ¬ (checks calls).2.Accepts call.1 call.2 := by
  induction calls using List.reverseRecOn with
  | nil =>
      intro call hcall
      cases hcall
  | append_singleton calls new ih =>
      have hbefore := ih fun call hcall => hvalid call (List.mem_append_left _ hcall)
      have hnew := hvalid new (List.mem_append_right _ (List.mem_singleton_self new))
      rw [checks_append]
      intro call hcall
      rcases (checks calls).2.check_cases new.1 new.2 with
        ⟨haccept, -, -, hself⟩ | ⟨hreject, -, hself⟩
      · rw [hself]
        rintro (hfresh | ⟨hsession, hlt⟩)
        · exact hnew hfresh
        · obtain hold | hlast := List.mem_append.mp hcall
          · -- The accepted packet is of the same session and above the old mark.
            obtain hfresh | ⟨hsame, hrises⟩ := haccept
            · exact hbefore call hold (.inl hfresh)
            · exact hbefore call hold
                (.inr ⟨hsession.trans hsame, UInt64.lt_trans hrises hlt⟩)
          · obtain rfl := List.mem_singleton.mp hlast
            exact UInt64.lt_irrefl _ hlt
      · rw [hself]
        obtain hold | hlast := List.mem_append.mp hcall
        · exact hbefore call hold
        · obtain rfl := List.mem_singleton.mp hlast
          exact hreject

/-- Over every history of valid packets, the accepted numbers and the reported ranges
partition the numbers from one to the last accepted one. -/
theorem reports_partition (hvalid : ∀ call ∈ calls, call.1 ≠ 0 ∧ call.2 ≠ 0) :
    let log := (checks calls).1
    let detector := (checks calls).2
    log.map (fun c => (c.sessionId, c.packetSequence)) = calls ∧
      (∀ first, calls.head? = some first →
        ∀ c ∈ log, c.result.status = .accepted → c.sessionId = first.1) ∧
      (acceptedNumbers log).Pairwise (· < ·) ∧
      (∀ r ∈ reportedRanges log, r.1 ≤ r.2) ∧
      (reportedRanges log).Pairwise
        (fun r r' => Disjoint (Set.Icc r.1 r.2) (Set.Icc r'.1 r'.2)) ∧
      (∀ n ∈ acceptedNumbers log, ∀ r ∈ reportedRanges log, n ∉ Set.Icc r.1 r.2) ∧
      (∀ n, (n ∈ acceptedNumbers log ∨ ∃ r ∈ reportedRanges log, n ∈ Set.Icc r.1 r.2) ↔
        1 ≤ n ∧ n ≤ detector.lastSequence.toNat) ∧
      (∀ c ∈ log, c.result.gap ≠ 0 → c.result.status = .accepted ∧
        c.result.gap.toNat = c.result.lastMissing.toNat - c.result.firstMissing.toNat + 1) ∧
      (∀ earlier later, log = earlier ++ later → ∀ r ∈ reportedRanges earlier,
        ∀ n ∈ acceptedNumbers later, n ∉ Set.Icc r.1 r.2) ∧
      ∀ sessionId packetSequence,
        (detector.check sessionId packetSequence).1.status ≠ .accepted →
          (detector.check sessionId packetSequence).2 = detector := by
  intro log detector
  have h : GapHistory log detector := checks_history hvalid
  refine ⟨checks_calls calls, ?_, h.tiling.rising, h.tiling.nonempty, h.tiling.disjoint,
    h.tiling.apart, h.tiling.covers, h.gap, ?_, ?_⟩
  · intro first hfirst c hc hstatus
    rw [← checks_calls calls, List.head?_map] at hfirst
    obtain ⟨c0, hc0, rfl⟩ := Option.map_eq_some_iff.mp hfirst
    exact (h.accepted c hc hstatus).trans (h.session c0 hc0).symm
  · intro earlier later hlog r hr n hn
    have hranges : r ∈ reportedRanges log := by
      rw [hlog, reportedRanges, List.filter_append, List.map_append]
      exact List.mem_append_left _ hr
    have hnumbers : n ∈ acceptedNumbers log := by
      rw [hlog, acceptedNumbers, List.filter_append, List.map_append]
      exact List.mem_append_right _ hn
    exact h.tiling.apart n hnumbers r hranges
  · intro sessionId packetSequence hstatus
    obtain ⟨-, haccepted, -⟩ | ⟨-, -, hsame⟩ := detector.check_cases sessionId packetSequence
    · exact absurd haccepted hstatus
    · exact hsame

/-- Two gaps, a late packet and a foreign one. -/
theorem reports_partition_sample :
    let log := (checks [(7, 2), (7, 6), (8, 9), (7, 3), (7, 7)]).1
    reportedRanges log = [(1, 1), (3, 5)] ∧ acceptedNumbers log = [2, 6, 7] ∧
      ∀ n, (n ∈ acceptedNumbers log ∨ ∃ r ∈ reportedRanges log, n ∈ Set.Icc r.1 r.2) ↔
        1 ≤ n ∧ n ≤ 7 := by
  obtain ⟨-, -, -, -, -, -, hcovers, -⟩ :=
    @reports_partition [(7, 2), (7, 6), (8, 9), (7, 3), (7, 7)] (by simp)
  exact ⟨by decide, by decide, hcovers⟩

end GapDetector

end EventEngine
