import EventEngine.Sender.System

/-!
# What a sender sends

For any interleaving with the producer, any outcomes of the sends, and any number of runs and
moves, the sends that were tried are those the acquired events ask for: for each event that
can be encoded, one per destination, with consecutive packet sequences.
-/

namespace EventEngine

open Concurrency Memory Protocol Transport EventEngine.Ring

namespace SenderSystem

variable {g : Geometry} {start : Sender} {before : Nat} {hist : List Event}
variable {s : SenderSystem} {ingress : Ring.System} {m : Span} {handle : SpscRing}

/-- In every state the thread is somewhere in the sends of the latest packet. -/
theorem Ok.sent (h : Ok g start before hist s) : ∃ l unsent used failed stopped,
    Sent start l (s.history before stopped) unsent used failed ∧
      unsent.length ≤ start.destinations.length ∧ used ≤ 1 := by
  obtain ⟨stopped, hthread, -⟩ := h.thread
  cases hpending : Sender.run.pending s.thread with
  | none =>
      have hsettled : ∃ l, Sender.Settled start l (s.history before stopped) := by
        obtain ⟨l, hhead | hexit | hfinal⟩ := hthread.settled hpending
        · exact ⟨l, hhead⟩
        · exact ⟨l, hexit⟩
        · exact ⟨l, hfinal⟩
      obtain ⟨l, sent⟩ := hsettled
      exact ⟨l, [], 0, 0, stopped, sent, Nat.zero_le _, Nat.zero_le _⟩
  | some pair =>
      obtain ⟨op, resume⟩ := pair
      obtain ⟨⟨l, unsent, used, failed, sent, hunsent, hused⟩, -⟩ := hthread.resume hpending
      exact ⟨l, unsent, used, failed, stopped, sent, hunsent, hused⟩

/-- Between two turns there is nothing left to send. -/
theorem Ok.atRest {l : SenderFrame} (h : Ok g start before hist s)
    (hrest : s.thread.AtRest l) : ∃ stopped,
    Sent start l (s.history before stopped) [] 0 0 ∧
      (stopped = true → s.stopRequested = true) := by
  obtain ⟨stopped, hthread, hstop⟩ := h.thread
  obtain hhead | hfinal := hthread.atRest hrest
  · exact ⟨stopped, hhead, hstop⟩
  · exact ⟨stopped, hfinal, hstop⟩

/-- The packet sequences of a sender, as long as they do not wrap. -/
theorem packets_sequences {events : List Event}
    (hbound : start.packetSequence.toNat + (start.packets events).length ≤ 2 ^ 64) :
    (start.packets events).map (fun packet => packet.1.packetSequence.toNat) =
      List.range' start.packetSequence.toNat (start.packets events).length := by
  have hsequences := congrArg (List.map UInt64.toNat) (@numbered_sequences start.sessionId
    start.maxDatagramBytes.toNat start.packetSequence.toNat events)
  rw [List.map_map, List.map_map] at hsequences
  refine Eq.trans hsequences ?_
  refine (List.map_congr_left ?_).trans (List.map_id _)
  intro q hq
  have hlt := (List.mem_range'_1.mp hq).2
  exact UInt64.toNat_ofNat_of_lt' (Nat.lt_of_lt_of_le hlt hbound)

/-- The sends that were tried are a prefix of those that the acquired events ask for; only
sends of the latest packet are missing, and none between two turns. The packet sequences are
consecutive and end at the last one; then the stop flag stays set. An object that was moved
from returns from `run` at once. -/
theorem sender_sends (hlimit : start.maxDatagramBytes.toNat ≤ maxPacketBytes)
    (hinit : Initialized g handle m)
    (hring : Reaches Ring.System.next anyAction (Ring.System.initial m handle) ingress)
    (hidle : ingress.consumer.running = none)
    (hrun : Reaches next anyAction (initial start ingress) s) :
    ∃ acquired unsent,
      s.ingress.consumer.acquiredEvents = ingress.consumer.acquiredEvents ++ acquired ∧
      s.ingress.consumer.acquiredEvents <+: s.ingress.producer.publishedEvents ∧
      s.attempts ++ unsent = start.sends acquired ∧
      unsent.length ≤ start.destinations.length ∧
      (start.packets acquired).map (fun packet => packet.1.packetSequence.toNat) =
        List.range' start.packetSequence.toNat (start.packets acquired).length ∧
      start.packetSequence.toNat + (start.packets acquired).length ≤ 2 ^ 64 ∧
      (∀ l, s.thread.AtRest l → unsent = [] ∧
        (start.packetSequence.toNat + (start.packets acquired).length = 2 ^ 64 →
          s.stopRequested = true)) ∧
      ∀ old ∈ s.movedFrom, ∃ resume,
        Sender.run.pending (.head old.1.frame) = some ⟨.loadStop, resume⟩ ∧
          resume old.2 = .returned old.1.frame := by
  obtain ⟨hist0, hring0⟩ := hinit.reaches_ok (q := False) (fun _ _ _ h => h.elim) hring
  obtain ⟨hist, hok, hgrows⟩ := reaches_ok hlimit (initial_ok hlimit hring0 hidle) hrun
  obtain ⟨l, unsent, used, failed, stopped, sent, hunsent, hused⟩ := hok.sent
  have hpublished : hist = s.ingress.producer.publishedEvents := hok.ring.producerLog
  have hacquired : ingress.consumer.acquiredEvents <+: s.ingress.consumer.acquiredEvents :=
    List.prefix_of_prefix_length_le (hring0.acquired_hist.trans hgrows)
      hok.ring.acquired_hist hok.before
  have hbound := sent.bound hused
  refine ⟨_, unsent, (List.prefix_iff_eq_append.mp hacquired).symm,
    hpublished ▸ hok.ring.acquired_hist, sent.attempts, hunsent, packets_sequences hbound,
    hbound, ?_, ?_⟩
  · intro l hrest
    obtain ⟨stopped', sent', hstop⟩ := hok.atRest hrest
    have hattempts := sent'.attempts.trans sent.attempts.symm
    refine ⟨(List.append_cancel_left hattempts).symm, fun hend => hstop ?_⟩
    obtain hnext | ⟨hstopped, -⟩ := sent'.sequence
    · have hlt := l.packetSequence.toNat_lt
      have hend' : l.packetSequence.toNat + 0 = 2 ^ 64 := hnext.trans hend
      omega
    · exact hstopped
  · intro old hold
    refine ⟨_, rfl, ?_⟩
    rw [hok.movedFrom old hold]
    rfl

/-- A sender at its last packet sequence, with two destinations. -/
def sampleSender : Sender :=
  ⟨44, [⟨0x7f000001, 9000⟩, ⟨0x7f000001, 9001⟩], 7, Sender.maxSequence, {}⟩

/-- An event that cannot be encoded and one that can are published and sent; one of the sends
fails. Then the sender is moved and runs again. -/
def sampleActions : List SenderAction :=
  .ingress (.begin .producer (.tryPublish ⟨1, 0, 3, []⟩)) ::
    List.replicate 7 (.ingress (.step .producer)) ++
    .ingress (.begin .producer (.tryPublish sampleEvent)) ::
    List.replicate 8 (.ingress (.step .producer)) ++
    .run :: List.replicate 28 (.step false) ++ List.replicate 2 (.step true) ++
    [.move, .run, .step true]

theorem sender_sends_sample :
    ∃ s, runActions next anyAction
        (initial sampleSender (Ring.System.initial sampleMemory sampleHandle)) sampleActions =
          some s ∧
      s.attempts = sampleSender.sends [⟨1, 0, 3, []⟩, sampleEvent] := by
  have hsample : (runActions next anyAction
      (initial sampleSender (Ring.System.initial sampleMemory sampleHandle)) sampleActions).map
        (fun s => (s.ingress.consumer.acquiredEvents, s.thread.hasReturned)) =
          some ([⟨1, 0, 3, []⟩, sampleEvent], true) := by
    decide +kernel
  obtain ⟨s, hs, hlog⟩ := Option.map_eq_some_iff.mp hsample
  obtain ⟨hevents, hthread⟩ := Prod.mk.inj hlog
  obtain ⟨acquired, unsent, hacquired, -, hattempts, -, -, -, hrest, -⟩ :=
    sender_sends (by decide) initialized_sample .refl rfl (reaches_of_runActions hs)
  have hsame : acquired = [⟨1, 0, 3, []⟩, sampleEvent] := hacquired.symm.trans hevents
  obtain ⟨l, hreturned⟩ := Thread.eq_of_hasReturned hthread
  obtain ⟨hunsent, -⟩ := hrest l (.inr hreturned)
  refine ⟨s, hs, ?_⟩
  rw [← hsame, ← hattempts, hunsent, List.append_nil]

end SenderSystem

end EventEngine
