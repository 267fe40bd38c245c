import EventEngine.Memory.Span
import Mathlib.Data.List.Lemmas
import Mathlib.Logic.Function.Basic
import Mathlib.Order.Lattice

/-!
# Shared memory with release and acquire accesses

Threads share a region in which every byte is stored by one thread only, its owner. A thread
does not see the stores of the others when they are performed, but when they happen before
its own access: a `View` counts, for every thread, the accesses that do. A load that acquires
may read from any later release of the same word, and then sees everything that happens
before it. All other loads read the last store in view.

For this to be what the language promises, a thread stores only to bytes it owns, loads
relaxed only words it owns, and no two conflicting accesses are unordered. A `SharedRegion`
records what is needed to state that.
-/

namespace EventEngine.Memory

/-- The memory order of an access; `plain` is an access that is not atomic. -/
inductive MemoryOrder where
  | plain
  | relaxed
  | acquire
  | release
  deriving DecidableEq, Repr

def MemoryOrder.isAtomic (order : MemoryOrder) : Bool := order != .plain

/-- How many accesses of each thread happen before some point of an execution. -/
abbrev View (τ : Type) := τ → Nat

/-- An access that was performed; `view` counts what happens before its end, itself included. -/
structure Performed (τ : Type) where
  access : Access
  order : MemoryOrder
  view : View τ

/-- What an access leaves of a region. -/
def Access.effect (op : Access) (m : Span) : Span :=
  match op with
  | .load _ _ => m
  | .store offset bytes => m.write offset bytes

/-- The accesses cover a common byte. -/
def Access.Overlaps (op op' : Access) : Prop :=
  op.offset < op'.offset + op'.length ∧ op'.offset < op.offset + op.length

theorem Access.effect_eq_spanExec (op : Access) (m : Span) :
    op.effect m = (@spanExec Unit op () m).2 := by
  cases op with
  | load offset length => rfl
  | store offset bytes => rfl

@[simp] theorem Access.effect_toRegion (op : Access) (m : Span) :
    (op.effect m).toRegion = m.toRegion := by
  cases op with
  | load offset length => rfl
  | store offset bytes => rfl

/-- What an access leaves of a byte depends on that byte only. -/
theorem Access.effect_bytes_congr (op : Access) {m m' : Span} {a : Nat}
    (h : m.bytes a = m'.bytes a) : (op.effect m).bytes a = (op.effect m').bytes a := by
  cases op with
  | load offset length => exact h
  | store offset bytes => simp only [effect, Span.write, h]

theorem Access.effect_bytes_outside {op : Access} {m : Span} {a : Nat}
    (h : op.isStore = true → a < op.offset ∨ op.offset + op.length ≤ a) :
    (op.effect m).bytes a = m.bytes a := by
  cases op with
  | load offset length => rfl
  | store offset bytes => exact Span.write_bytes_outside (h rfl)

/-- Two accesses of different threads that the language requires to be ordered. -/
structure Performed.Conflicts {τ : Type} (e e' : Performed τ) : Prop where
  overlaps : e.access.Overlaps e'.access
  stores : e.access.isStore = true ∨ e'.access.isStore = true
  notAtomic : ¬ (e.order.isAtomic = true ∧ e'.order.isAtomic = true ∧
    e.access.offset = e'.access.offset ∧ e.access.length = e'.access.length)

theorem Performed.Conflicts.symm {τ : Type} {e e' : Performed τ} (h : e.Conflicts e') :
    e'.Conflicts e where
  overlaps := ⟨h.overlaps.2, h.overlaps.1⟩
  stores := h.stores.symm
  notAtomic := fun ⟨ha, ha', hoffset, hlength⟩ =>
    h.notAtomic ⟨ha', ha, hoffset.symm, hlength.symm⟩

/-- What happens before an access of thread `t`, without the access itself. -/
def Performed.before {τ : Type} [DecidableEq τ] (e : Performed τ) (t : τ) : View τ :=
  Function.update e.view t (e.view t - 1)

/-- What threads have done to a region so far: the accesses of each, in program order, and
what happens before its next one. -/
structure SharedRegion (τ : Type) where
  initial : Span
  owner : Nat → τ
  log : τ → List (Performed τ)
  view : τ → View τ

namespace SharedRegion

section Views

variable {τ : Type}

/-- No access has been performed. -/
def start (m : Span) (owner : Nat → τ) : SharedRegion τ := ⟨m, owner, fun _ => [], fun _ _ => 0⟩

/-- The region after the first `n` accesses of one thread, without those of the others. -/
def written (x : SharedRegion τ) (t : τ) (n : Nat) : Span :=
  ((x.log t).take n).foldl (fun m e => e.access.effect m) x.initial

/-- The region as it is seen where `v` happens before. -/
def visible (x : SharedRegion τ) (v : View τ) : Span :=
  { x.initial with bytes := fun a => (x.written (x.owner a) (v (x.owner a))).bytes a }

/-- What a thread sees. -/
def memory (x : SharedRegion τ) (t : τ) : Span := x.visible (x.view t)

/-- The thread owns all bytes of the access. -/
def Owns (x : SharedRegion τ) (t : τ) (op : Access) : Prop :=
  ∀ a, op.offset ≤ a → a < op.offset + op.length → x.owner a = t

/-- A view that contains what happens before anything it contains. -/
structure Closed (x : SharedRegion τ) (v : View τ) : Prop where
  le : ∀ u, v u ≤ (x.log u).length
  past : ∀ u i e, (x.log u)[i]? = some e → i < v u → e.view ≤ v

/-- Conflicting accesses of different threads are ordered. -/
def RaceFree (x : SharedRegion τ) : Prop :=
  ∀ (t u : τ) (i j : Nat) (e e' : Performed τ), t ≠ u → (x.log t)[i]? = some e →
    (x.log u)[j]? = some e' → e.Conflicts e' → i < e'.view t ∨ j < e.view u

/-- What a load learns when it reads what the access `i` of thread `u` has stored: the load
acquires, the access is a release of the same word, and the thread has not yet seen it. -/
def synchronizes (x : SharedRegion τ) (t : τ) (op : Access) (order : MemoryOrder) (u : τ)
    (i : Nat) : Option (View τ) :=
  match (x.log u)[i]? with
  | none => none
  | some e =>
      if order = .acquire ∧ e.order = .release ∧ e.access.isStore = true ∧
        e.access.offset = op.offset ∧ e.access.length = op.length ∧ x.view t u ≤ i
      then some e.view else none

variable {x : SharedRegion τ} {v w : View τ} {a : Nat}

@[simp] theorem visible_toRegion (x : SharedRegion τ) (v : View τ) :
    (x.visible v).toRegion = x.initial.toRegion := rfl

/-- A byte is seen as its owner has left it. -/
theorem visible_bytes (x : SharedRegion τ) (v : View τ) (a : Nat) :
    (x.visible v).bytes a = (x.written (x.owner a) (v (x.owner a))).bytes a := rfl

theorem visible_bytes_congr (h : v (x.owner a) = w (x.owner a)) :
    (x.visible v).bytes a = (x.visible w).bytes a := by
  rw [visible_bytes, visible_bytes, h]

/-- At the start every view shows the initial region. -/
@[simp] theorem visible_start (m : Span) (owner : Nat → τ) (v : View τ) :
    (start m owner).visible v = m := by
  have hwritten : ∀ t n, (start m owner).written t n = m := by
    intro t n
    rw [written, start, List.take_nil]
    rfl
  simp only [visible, hwritten]
  rfl

/-- An access acts on what its thread has left before. -/
theorem written_succ {t : τ} {i : Nat} {e : Performed τ} (he : (x.log t)[i]? = some e) :
    x.written t (i + 1) = e.access.effect (x.written t i) := by
  unfold written
  rw [List.take_add_one, he, Option.toList_some, List.foldl_append]
  rfl

/-- What `synchronizes` has checked. -/
theorem synchronizes_eq_some {t u : τ} {op : Access} {order : MemoryOrder} {i : Nat}
    (h : x.synchronizes t op order u i = some w) :
    ∃ e, (x.log u)[i]? = some e ∧ e.view = w ∧ e.access.isStore = true ∧
      e.access.offset = op.offset ∧ e.access.length = op.length ∧ x.view t u ≤ i := by
  unfold synchronizes at h
  split at h
  case h_1 => cases h
  case h_2 e he =>
    split at h
    case isTrue hcond =>
      obtain ⟨-, -, hstore, hoffset, hlength, hle⟩ := hcond
      exact ⟨e, he, Option.some.inj h, hstore, hoffset, hlength, hle⟩
    case isFalse => cases h

theorem Closed.sup (hv : x.Closed v) (hw : x.Closed w) : x.Closed (v ⊔ w) where
  le u := max_le (hv.le u) (hw.le u)
  past u i e he hi := by
    obtain hi | hi := lt_max_iff.mp hi
    · exact (hv.past u i e he hi).trans le_sup_left
    · exact (hw.past u i e he hi).trans le_sup_right

end Views

section Operations

variable {τ : Type} [DecidableEq τ]

/-- What a thread sees once it has performed its next access. -/
def after (x : SharedRegion τ) (t : τ) : View τ := Function.update (x.view t) t (x.view t t + 1)

/-- The thread performs an access. -/
def record (x : SharedRegion τ) (t : τ) (op : Access) (order : MemoryOrder) : SharedRegion τ :=
  { x with
    log := Function.update x.log t (x.log t ++ [⟨op, order, x.after t⟩])
    view := Function.update x.view t (x.after t) }

/-- From now on what is in `v` happens before what the thread does. -/
def learn (x : SharedRegion τ) (t : τ) (v : View τ) : SharedRegion τ :=
  { x with view := Function.update x.view t (x.view t ⊔ v) }

/-- What holds of every execution: a view is closed, and every thread sees all it has done. -/
structure Causal (x : SharedRegion τ) : Prop where
  own : ∀ t, x.view t t = (x.log t).length
  closed : ∀ t, x.Closed (x.view t)
  performed : ∀ t i e, (x.log t)[i]? = some e →
    x.Closed e.view ∧ e.view t = i + 1 ∧ x.Closed (e.before t)

theorem causal_start (m : Span) (owner : Nat → τ) : (start m owner).Causal where
  own _ := rfl
  closed _ := ⟨fun _ => Nat.le_refl 0, fun _ _ _ _ hi => absurd hi (Nat.not_lt_zero _)⟩
  performed _ _ _ he := by cases he

variable {x : SharedRegion τ} {v w : View τ} {t u : τ} {op : Access} {order : MemoryOrder}
variable {e : Performed τ} {i : Nat}

/-- A view that ends with an access shows what it shows without it, and the effect of the
access. -/
theorem visible_succ (howns : e.access.isStore = true → x.Owns t e.access)
    (he : (x.log t)[i]? = some e) (hv : v t = i + 1) :
    x.visible v = e.access.effect (x.visible (Function.update v t i)) := by
  have hregion : (e.access.effect (x.visible (Function.update v t i))).toRegion =
      x.initial.toRegion := by rw [Access.effect_toRegion]; rfl
  have hbytes : ∀ a, (x.visible v).bytes a =
      (e.access.effect (x.visible (Function.update v t i))).bytes a := by
    intro a
    rw [visible_bytes]
    by_cases ha : x.owner a = t
    · rw [ha, hv, written_succ he]
      refine Access.effect_bytes_congr e.access ?_
      rw [visible_bytes, ha, Function.update_self]
    · have houtside : e.access.isStore = true →
          a < e.access.offset ∨ e.access.offset + e.access.length ≤ a := by
        intro hstore
        by_contra hin
        exact ha (howns hstore a (by omega) (by omega))
      rw [Access.effect_bytes_outside houtside, visible_bytes, Function.update_of_ne ha]
  generalize e.access.effect (x.visible (Function.update v t i)) = m at hregion hbytes ⊢
  obtain ⟨region, bytes⟩ := m
  obtain rfl : region = x.initial.toRegion := hregion
  simp only [visible, Span.mk.injEq, true_and]
  exact funext hbytes

/-- What happens before an access, besides the access itself, does not contain it. -/
theorem Causal.before_self (hx : x.Causal) (he : (x.log t)[i]? = some e) : e.before t t = i := by
  rw [Performed.before, Function.update_self, (hx.performed t i e he).2.1]
  rfl

theorem before_of_ne (h : u ≠ t) : e.before t u = e.view u := Function.update_of_ne h _ _

/-- What an access leaves to those who see nothing else that is new. -/
theorem Causal.visible_performed (hx : x.Causal)
    (howns : e.access.isStore = true → x.Owns t e.access) (he : (x.log t)[i]? = some e) :
    x.visible e.view = e.access.effect (x.visible (e.before t)) := by
  have hv := (hx.performed t i e he).2.1
  rw [visible_succ howns he hv, Performed.before, hv]
  rfl

/-- What every access of a thread between two points keeps, is kept from one to the other.
The relation only looks at what that thread stores. -/
theorem Causal.along {r : Span → Span → Prop} (hx : x.Causal)
    (same : ∀ v w : View τ, v t = w t → r (x.visible v) (x.visible w))
    (trans : ∀ m m' m'', r m m' → r m' m'' → r m m'')
    (step : ∀ i e, (x.log t)[i]? = some e → v t ≤ i → i < w t →
      r (x.visible (e.before t)) (x.visible e.view))
    (hle : v t ≤ w t) (hw : w t ≤ (x.log t).length) : r (x.visible v) (x.visible w) := by
  obtain ⟨k, hk⟩ := Nat.exists_eq_add_of_le hle
  induction k generalizing w with
  | zero => exact same v w hk.symm
  | succ k ih =>
      have hlt : v t + k < (x.log t).length := by omega
      have he : (x.log t)[v t + k]? = some (x.log t)[v t + k] := List.getElem?_eq_getElem hlt
      have hself : Function.update w t (v t + k) t = v t + k := Function.update_self t _ w
      have hbelow : r (x.visible v) (x.visible (Function.update w t (v t + k))) := by
        refine ih (fun i e he hi hlt' => step i e he hi ?_) ?_ ?_ hself
        · rw [hself] at hlt'
          omega
        · rw [hself]
          exact Nat.le_add_right _ _
        · rw [hself]
          exact Nat.le_of_lt hlt
      have hlast := step (v t + k) _ he (Nat.le_add_right _ _) (by omega)
      refine trans _ _ _ hbelow (trans _ _ _ (same _ _ ?_) (trans _ _ _ hlast (same _ _ ?_)))
      · rw [hself, hx.before_self he]
      · rw [(hx.performed t _ _ he).2.1, hk]
        omega

section Learn

@[simp] theorem learn_log : (x.learn t w).log = x.log := rfl

@[simp] theorem learn_view_self : (x.learn t w).view t = x.view t ⊔ w :=
  Function.update_self t _ x.view

theorem learn_view_of_ne (h : u ≠ t) : (x.learn t w).view u = x.view u :=
  Function.update_of_ne h _ x.view

@[simp] theorem visible_learn : (x.learn t w).visible v = x.visible v := rfl

theorem closed_learn_iff : (x.learn t w).Closed v ↔ x.Closed v :=
  ⟨fun h => ⟨h.le, h.past⟩, fun h => ⟨h.le, h.past⟩⟩

/-- Learning does not make a thread see more of its own accesses. -/
theorem Causal.learn_own (hx : x.Causal) (hw : x.Closed w) : (x.view t ⊔ w) t = x.view t t :=
  max_eq_left ((hw.le t).trans_eq (hx.own t).symm)

theorem Causal.learn (hx : x.Causal) (hw : x.Closed w) : (x.learn t w).Causal where
  own u := by
    by_cases h : u = t
    · subst h
      rw [learn_view_self, hx.learn_own hw]
      exact hx.own u
    · rw [learn_view_of_ne h]
      exact hx.own u
  closed u := by
    rw [closed_learn_iff]
    by_cases h : u = t
    · subst h
      rw [learn_view_self]
      exact (hx.closed u).sup hw
    · rw [learn_view_of_ne h]
      exact hx.closed u
  performed u i e he := by
    rw [closed_learn_iff, closed_learn_iff]
    exact hx.performed u i e he

/-- A load that synchronizes reads what the release has stored. -/
theorem Causal.read_synchronized {offset : Nat} {bytes : Bytes} (hx : x.Causal)
    (h : x.synchronizes t op order u i = some w) (he : (x.log u)[i]? = some e)
    (hop : e.access = .store offset bytes) (howns : x.Owns u e.access) :
    (x.visible (x.view t ⊔ w)).read op.offset op.length = bytes := by
  obtain ⟨e', he', rfl, -, hoffset, hlength, hle⟩ := synchronizes_eq_some h
  obtain rfl : e = e' := Option.some.inj (he.symm.trans he')
  have hview := (hx.performed u i e he).2.1
  have hlast : (x.view t ⊔ e.view) u = e.view u := max_eq_right (by omega)
  rw [← hoffset, ← hlength]
  have hsame : Span.Agree e.access.offset (e.access.offset + e.access.length) (x.visible e.view)
      (x.visible (x.view t ⊔ e.view)) := by
    intro a hlo hhi
    refine visible_bytes_congr ?_
    rw [howns a hlo hhi, hlast]
  rw [Span.read_congr hsame (Nat.le_refl _) (Nat.le_refl _),
    hx.visible_performed (fun _ => howns) he, hop]
  exact Span.read_write_same _ offset bytes

theorem Causal.closed_of_synchronizes (hx : x.Causal)
    (h : x.synchronizes t op order u i = some w) : x.Closed w := by
  obtain ⟨e, he, rfl, -⟩ := synchronizes_eq_some h
  exact (hx.performed u i e he).1

end Learn

section Record

@[simp] theorem after_self (x : SharedRegion τ) (t : τ) : x.after t t = x.view t t + 1 :=
  Function.update_self t _ (x.view t)

theorem after_of_ne (h : u ≠ t) : x.after t u = x.view t u :=
  Function.update_of_ne h _ (x.view t)

theorem view_le_after (x : SharedRegion τ) (t : τ) : x.view t ≤ x.after t :=
  le_update_iff.mpr ⟨Nat.le_succ _, fun _ _ => Nat.le_refl _⟩

/-- What happens before the next access, without the access. -/
theorem before_after : Performed.before ⟨op, order, x.after t⟩ t = x.view t := by
  simp [Performed.before, after]

theorem record_view_self : (x.record t op order).view t = x.after t :=
  Function.update_self t _ x.view

theorem record_view_of_ne (h : u ≠ t) : (x.record t op order).view u = x.view u :=
  Function.update_of_ne h _ x.view

theorem record_log_self :
    (x.record t op order).log t = x.log t ++ [⟨op, order, x.after t⟩] :=
  Function.update_self t _ x.log

theorem record_log_of_ne (h : u ≠ t) : (x.record t op order).log u = x.log u :=
  Function.update_of_ne h _ x.log

/-- The log is as it was, with the access behind it. -/
theorem record_log_cases (h : ((x.record t op order).log u)[i]? = some e) :
    (x.log u)[i]? = some e ∨ (u = t ∧ i = (x.log t).length ∧ e = ⟨op, order, x.after t⟩) := by
  by_cases hu : u = t
  · subst hu
    rw [record_log_self] at h
    obtain hi | hi := Nat.lt_or_ge i (x.log u).length
    · rw [List.getElem?_append_left hi] at h
      exact .inl h
    · rw [List.getElem?_append_right hi, List.getElem?_singleton] at h
      split at h
      case isTrue h0 => exact .inr ⟨rfl, by omega, (Option.some.inj h).symm⟩
      case isFalse => cases h
  · rw [record_log_of_ne hu] at h
    exact .inl h

theorem record_log_of_some (h : (x.log u)[i]? = some e) :
    ((x.record t op order).log u)[i]? = some e := by
  by_cases hu : u = t
  · subst hu
    rw [record_log_self, List.getElem?_append_left (List.getElem?_eq_some_iff.mp h).1]
    exact h
  · rw [record_log_of_ne hu]
    exact h

theorem log_length_le_record (u : τ) :
    (x.log u).length ≤ ((x.record t op order).log u).length := by
  by_cases hu : u = t
  · subst hu
    rw [record_log_self, List.length_append]
    exact Nat.le_add_right _ _
  · rw [record_log_of_ne hu]

/-- A view that was closed before the access is closed after it. -/
theorem Closed.record (h : x.Closed v) : (x.record t op order).Closed v where
  le u := (h.le u).trans (log_length_le_record u)
  past u i e he hi := by
    obtain hold | ⟨rfl, rfl, -⟩ := record_log_cases he
    · exact h.past u i e hold hi
    · exact absurd hi (Nat.not_lt.mpr (h.le u))

/-- The view after the access is closed. -/
theorem Causal.closed_after (hx : x.Causal) : (x.record t op order).Closed (x.after t) where
  le u := by
    by_cases hu : u = t
    · subst hu
      rw [after_self, record_log_self, hx.own, List.length_append]
      exact Nat.le_refl _
    · rw [after_of_ne hu, record_log_of_ne hu]
      exact (hx.closed t).le u
  past u i e he hi := by
    obtain hold | ⟨rfl, rfl, rfl⟩ := record_log_cases he
    · refine ((hx.closed t).past u i e hold ?_).trans (x.view_le_after t)
      by_cases hu : u = t
      · subst hu
        rw [hx.own]
        exact (List.getElem?_eq_some_iff.mp hold).1
      · rwa [after_of_ne hu] at hi
    · exact le_refl _

theorem Causal.record (hx : x.Causal) : (x.record t op order).Causal where
  own u := by
    by_cases hu : u = t
    · subst hu
      rw [record_view_self, after_self, record_log_self, hx.own, List.length_append]
      rfl
    · rw [record_view_of_ne hu, record_log_of_ne hu]
      exact hx.own u
  closed u := by
    by_cases hu : u = t
    · subst hu
      rw [record_view_self]
      exact hx.closed_after
    · rw [record_view_of_ne hu]
      exact (hx.closed u).record
  performed u i e he := by
    obtain hold | ⟨rfl, rfl, rfl⟩ := record_log_cases he
    · obtain ⟨hclosed, hown, hbefore⟩ := hx.performed u i e hold
      exact ⟨hclosed.record, hown, hbefore.record⟩
    · refine ⟨hx.closed_after, ?_, ?_⟩
      · exact (x.after_self u).trans (congrArg Nat.succ (hx.own u))
      · rw [before_after]
        exact (hx.closed u).record

/-- A closed view is one from before the access, or contains the access with all that happens
before it. -/
theorem Causal.closed_record_cases (hx : x.Causal) (h : (x.record t op order).Closed v) :
    x.Closed v ∨ (v t = (x.log t).length + 1 ∧ x.view t ≤ Function.update v t (x.log t).length ∧
      x.Closed (Function.update v t (x.log t).length)) := by
  have hle := h.le t
  rw [record_log_self, List.length_append, List.length_singleton] at hle
  obtain hold | hnew := Nat.lt_or_ge (x.log t).length (v t)
  · have hv : v t = (x.log t).length + 1 := Nat.le_antisymm hle hold
    refine .inr ⟨hv, ?_, ?_, ?_⟩
    · have hlast : x.after t ≤ v := h.past t (x.log t).length ⟨op, order, x.after t⟩
        (by rw [record_log_self, List.getElem?_concat_length]) hold
      refine le_update_iff.mpr ⟨Nat.le_of_eq (hx.own t), fun u hu => ?_⟩
      exact (x.view_le_after t u).trans (hlast u)
    · intro u
      by_cases hu : u = t
      · subst hu
        rw [Function.update_self]
      · rw [Function.update_of_ne hu]
        exact (h.le u).trans_eq (congrArg List.length (record_log_of_ne hu))
    · intro u i e he hi
      have hclosed := (hx.performed u i e he).1
      refine le_update_iff.mpr ⟨hclosed.le t, fun w _ => ?_⟩
      refine h.past u i e (record_log_of_some he) ?_ w
      by_cases hu : u = t
      · subst hu
        rw [Function.update_self] at hi
        exact hi.trans hold
      · rwa [Function.update_of_ne hu] at hi
  · refine .inl ⟨fun u => ?_, fun u i e he hi => h.past u i e (record_log_of_some he) hi⟩
    by_cases hu : u = t
    · subst hu
      exact hnew
    · exact (h.le u).trans_eq (congrArg List.length (record_log_of_ne hu))

theorem written_record {n : Nat} (h : n ≤ (x.log u).length) :
    (x.record t op order).written u n = x.written u n := by
  unfold written
  by_cases hu : u = t
  · subst hu
    rw [record_log_self, List.take_append_of_le_length h]
    rfl
  · rw [record_log_of_ne hu]
    rfl

/-- A view from before the access shows what it has shown. -/
theorem visible_record (h : ∀ u, v u ≤ (x.log u).length) :
    (x.record t op order).visible v = x.visible v := by
  simp only [visible, Span.mk.injEq]
  refine ⟨rfl, ?_⟩
  funext a
  exact congrArg (fun m => m.bytes a) (written_record (h _))

/-- A view with the new access shows what it shows without it, and the effect of the access. -/
theorem visible_record_new (howns : op.isStore = true → x.Owns t op)
    (h : (x.record t op order).Closed v) (hv : v t = (x.log t).length + 1) :
    (x.record t op order).visible v =
      op.effect (x.visible (Function.update v t (x.log t).length)) := by
  have hentry : ((x.record t op order).log t)[(x.log t).length]? =
      some ⟨op, order, x.after t⟩ := by
    rw [record_log_self, List.getElem?_concat_length]
  rw [visible_succ howns hentry hv, visible_record]
  intro u
  by_cases hu : u = t
  · subst hu
    rw [Function.update_self]
  · rw [Function.update_of_ne hu]
    exact (h.le u).trans_eq (congrArg List.length (record_log_of_ne hu))

end Record

end Operations

end SharedRegion

end EventEngine.Memory
