import HoodSentry.Common.Machine
/-!
# Interleaved calls

A call runs synchronously until it awaits an answer; while it waits, other
calls run. A call is therefore a tree: what it reads and writes of the state
all calls share, and the answers it waits for. `callMachine` interleaves any
number of calls, section by section, and `Guarantees` is the rule for
what a finished call has established: what it relies on is what every
section of every call keeps.
-/

namespace HoodSentry

/-- **A call.** `A q` is what the question `q` is answered with; an answer
may fail as the call itself may. -/
inductive Async (Q : Type) (A : Q → Type) (σ ε α : Type) : Type
  | done (result : Except ε α)
  | get (next : σ → Async Q A σ ε α)
  | set (s : σ) (next : Async Q A σ ε α)
  | await (q : Q) (next : Except ε (A q) → Async Q A σ ε α)

namespace Async

variable {Q : Type} {A : Q → Type} {σ ε α β : Type}

def bind (c : Async Q A σ ε α) (f : α → Async Q A σ ε β) : Async Q A σ ε β :=
  match c with
  | .done (.ok a) => f a
  | .done (.error e) => .done (.error e)
  | .get next => .get fun s => (next s).bind f
  | .set s next => .set s (next.bind f)
  | .await q next => .await q fun a => (next a).bind f

instance : Monad (Async Q A σ ε) where
  pure a := .done (.ok a)
  bind := bind

/-- Await an answer; its failure is the call's. -/
def ask (q : Q) : Async Q A σ ε (A q) := .await q .done

def read : Async Q A σ ε σ := .get fun s => .done (.ok s)

def write (s : σ) : Async Q A σ ε Unit := .set s (.done (.ok ()))

def fail (e : ε) : Async Q A σ ε α := .done (.error e)

/-- The check that throws where it does not hold. -/
def require (p : Prop) [Decidable p] (e : ε) : Async Q A σ ε Unit :=
  if p then .done (.ok ()) else .done (.error e)

/-- A result already computed. -/
def ofExcept (r : Except ε α) : Async Q A σ ε α := .done r

/-- Run a call until it waits or has ended. -/
def advance : Async Q A σ ε α → σ → Async Q A σ ε α × σ
  | .done r, s => (.done r, s)
  | .get next, s => (next s).advance s
  | .set s next, _ => next.advance s
  | .await q next, s => (.await q next, s)

/-! ## What a call establishes -/

section Rules

variable (Inv : σ → Prop) (Later : σ → σ → Prop) {Post Post' : σ → Except ε α → Prop}

/-- **The rule of a call.** Run from `s`, it keeps the invariant, moves the
state only to later ones whenever it writes, and ends in its postcondition,
whatever the other calls do meanwhile within the same terms. -/
def Guarantees (Post : σ → Except ε α → Prop) : Async Q A σ ε α → σ → Prop
  | .done r, s => Post s r
  | .get next, s => (next s).Guarantees Post s
  | .set s' next, s => Inv s' ∧ Later s s' ∧ next.Guarantees Post s'
  | .await _ next, s => ∀ s', Inv s' → Later s s' → ∀ a, (next a).Guarantees Post s'

variable {Inv Later}

/-- **Sequencing.** -/
theorem guarantees_bind {Post : σ → Except ε β → Prop} {c : Async Q A σ ε α}
    {f : α → Async Q A σ ε β} {s : σ} (herror : ∀ s e, Post s (.error e))
    (h : c.Guarantees Inv Later
      (fun s r => ∀ a, r = .ok a → (f a).Guarantees Inv Later Post s) s) :
    (c >>= f).Guarantees Inv Later Post s := by
  change (c.bind f).Guarantees Inv Later Post s
  induction c generalizing s with
  | done r =>
    cases r with
    | error e => exact herror s e
    | ok a => exact h a rfl
  | get next ih => exact ih s h
  | set s' next ih => exact ⟨h.1, h.2.1, ih h.2.2⟩
  | await q next ih => exact fun s' hs hlater a => ih a (h s' hs hlater a)

theorem Guarantees.mono {c : Async Q A σ ε α} {s : σ}
    (hpost : ∀ s r, Post s r → Post' s r) (h : c.Guarantees Inv Later Post s) :
    c.Guarantees Inv Later Post' s := by
  induction c generalizing s with
  | done r => exact hpost s r h
  | get next ih => exact ih s h
  | set s' next ih => exact ⟨h.1, h.2.1, ih h.2.2⟩
  | await q next ih => exact fun s' hs hlater a => ih a (h s' hs hlater a)

/-- A call that waits, or has ended, outlasts what others do. -/
theorem Guarantees.later {c : Async Q A σ ε α} {s s' : σ}
    (htrans : ∀ {s t u}, Later s t → Later t u → Later s u)
    (hstable : ∀ {s s' r}, Later s s' → Post s r → Post s' r)
    (hwaits : (∃ r, c = .done r) ∨ ∃ q next, c = .await q next) (hlater : Later s s')
    (h : c.Guarantees Inv Later Post s) : c.Guarantees Inv Later Post s' := by
  rcases hwaits with ⟨r, rfl⟩ | ⟨q, next, rfl⟩
  · exact hstable hlater h
  · exact fun t ht hafter => h t ht (htrans hlater hafter)

theorem advance_waits (c : Async Q A σ ε α) (s : σ) :
    (∃ r, (c.advance s).1 = .done r) ∨ ∃ q next, (c.advance s).1 = .await q next := by
  induction c generalizing s with
  | done r => exact .inl ⟨r, rfl⟩
  | get next ih => exact ih s s
  | set s' next ih => exact ih s'
  | await q next ih => exact .inr ⟨q, next, rfl⟩

/-- **One section** keeps the invariant and leaves the call as it promised. -/
theorem Guarantees.advance {c : Async Q A σ ε α} {s : σ} (hrefl : ∀ s, Later s s)
    (htrans : ∀ {s t u}, Later s t → Later t u → Later s u) (hs : Inv s)
    (h : c.Guarantees Inv Later Post s) :
    Inv (c.advance s).2 ∧ Later s (c.advance s).2 ∧
      (c.advance s).1.Guarantees Inv Later Post (c.advance s).2 := by
  induction c generalizing s with
  | done r => exact ⟨hs, hrefl s, h⟩
  | get next ih => exact ih s hs h
  | set s' next ih =>
    obtain ⟨hinv, hlater, hnext⟩ := ih h.1 h.2.2
    exact ⟨hinv, htrans h.2.1 hlater, hnext⟩
  | await q next ih => exact ⟨hs, hrefl s, h⟩

variable (Inv Later) in
/-- The rule where only a result is promised anything. -/
def Ensures (P : σ → α → Prop) (c : Async Q A σ ε α) (s : σ) : Prop :=
  c.Guarantees Inv Later (fun s r => ∀ a, r = .ok a → P s a) s

variable {P P' : σ → α → Prop} {s : σ}

theorem ensures_bind {P : σ → β → Prop} {c : Async Q A σ ε α} {f : α → Async Q A σ ε β}
    (h : c.Ensures Inv Later (fun s a => (f a).Ensures Inv Later P s) s) :
    (c >>= f).Ensures Inv Later P s :=
  guarantees_bind (fun _ _ _ he => nomatch he) h

theorem Ensures.mono {c : Async Q A σ ε α} (hP : ∀ s a, P s a → P' s a)
    (h : c.Ensures Inv Later P s) : c.Ensures Inv Later P' s :=
  Guarantees.mono (fun s _ hr a ha => hP s a (hr a ha)) h

theorem ensures_pure {a : α} (h : P s a) : (pure a : Async Q A σ ε α).Ensures Inv Later P s := by
  rintro b hb
  obtain rfl := Except.ok.inj hb
  exact h

theorem ensures_fail {e : ε} : (fail e : Async Q A σ ε α).Ensures Inv Later P s :=
  fun _ he => nomatch he

theorem ensures_ofExcept {r : Except ε α} (h : ∀ a, r = .ok a → P s a) :
    (ofExcept r : Async Q A σ ε α).Ensures Inv Later P s := h

theorem ensures_require {P : σ → Unit → Prop} {p : Prop} [Decidable p] {e : ε}
    (h : p → P s ()) : (require p e : Async Q A σ ε Unit).Ensures Inv Later P s := by
  unfold require
  split_ifs with hp
  · exact fun _ _ => h hp
  · exact fun _ he => nomatch he

theorem ensures_read {P : σ → σ → Prop} (h : P s s) :
    (read : Async Q A σ ε σ).Ensures Inv Later P s := by
  rintro b hb
  obtain rfl := Except.ok.inj hb
  exact h

theorem ensures_write {P : σ → Unit → Prop} {s' : σ} (hinv : Inv s') (hlater : Later s s')
    (h : P s' ()) : (write s' : Async Q A σ ε Unit).Ensures Inv Later P s :=
  ⟨hinv, hlater, fun _ _ => h⟩

theorem ensures_ask {q : Q} {P : σ → A q → Prop} (h : ∀ s', Inv s' → Later s s' → ∀ a, P s' a) :
    (ask q : Async Q A σ ε (A q)).Ensures Inv Later P s :=
  fun s' hs' hlater _ a _ => h s' hs' hlater a

end Rules

end Async

/-! ## The machine of the calls -/

section CallMachine

variable {Q : Type} {A : Q → Type} {σ ε ι α : Type}

/-- The shared state, and every call made so far with what is left of it. -/
structure CallWorld (Q : Type) (A : Q → Type) (σ ε ι α : Type) where
  shared : σ
  calls : List (ι × Async Q A σ ε α)

/-- A new call is made, or the one at `k` has its answer. -/
inductive CallStep (Q : Type) (A : Q → Type) (ε ι : Type)
  | start (i : ι)
  | answer (k : ℕ) (answers : ∀ q, Except ε (A q))

namespace CallWorld

variable (body : ι → Async Q A σ ε α) (w : CallWorld Q A σ ε ι α)

def step : CallStep Q A ε ι → Option (CallWorld Q A σ ε ι α)
  | .start i =>
    some
      { shared := ((body i).advance w.shared).2
        calls := w.calls ++ [(i, ((body i).advance w.shared).1)] }
  | .answer k answers =>
    match w.calls[k]? with
    | some (i, .await q next) =>
      some
        { shared := ((next (answers q)).advance w.shared).2
          calls := w.calls.set k (i, ((next (answers q)).advance w.shared).1) }
    | _ => none

/-- The result of the call at `k`, once it has ended well. -/
def resultAt (k : ℕ) : Option (ι × α) :=
  match w.calls[k]? with
  | some (i, .done (.ok a)) => some (i, a)
  | _ => none

theorem mem_of_resultAt {k : ℕ} {i : ι} {a : α} {w : CallWorld Q A σ ε ι α}
    (h : w.resultAt k = some (i, a)) : (i, Async.done (.ok a)) ∈ w.calls := by
  unfold resultAt at h
  split at h
  · rename_i hk
    obtain ⟨rfl, rfl⟩ := Prod.mk.inj (Option.some.inj h)
    exact List.mem_of_getElem? hk
  · exact absurd h.symm (Option.some_ne_none _)

end CallWorld

/-- The calls `body` makes of the labels, from one of the states `Init`. -/
def callMachine (Init : σ → Prop) (body : ι → Async Q A σ ε α) :
    Machine (CallWorld Q A σ ε ι α) (CallStep Q A ε ι) where
  Init w := Init w.shared ∧ w.calls = []
  step w i := w.step body i

variable {Init Inv : σ → Prop} {Later : σ → σ → Prop} {body : ι → Async Q A σ ε α}
variable {Post : ι → σ → Except ε α → Prop}

/-- **The rule of interleaved calls.** Where every call keeps its guarantee
from any state that meets the invariant, every call that has ended meets its
postcondition in every state reached. -/
theorem guaranteed_of_reachable (hrefl : ∀ s, Later s s)
    (htrans : ∀ {s t u}, Later s t → Later t u → Later s u)
    (hstable : ∀ {i s s' r}, Later s s' → Post i s r → Post i s' r)
    (hinit : ∀ s, Init s → Inv s)
    (hbody : ∀ i s, Inv s → (body i).Guarantees Inv Later (Post i) s)
    {w : CallWorld Q A σ ε ι α} (h : (callMachine Init body).Reachable w) :
    Inv w.shared ∧ ∀ i r, (i, Async.done r) ∈ w.calls → Post i w.shared r := by
  suffices hall : Inv w.shared ∧ ∀ i c, (i, c) ∈ w.calls →
      ((∃ r, c = .done r) ∨ ∃ q next, c = .await q next) ∧
        c.Guarantees Inv Later (Post i) w.shared from
    ⟨hall.1, fun i r hmem => (hall.2 i _ hmem).2⟩
  refine h.invariant (I := fun w => Inv w.shared ∧ ∀ i c, (i, c) ∈ w.calls →
    ((∃ r, c = .done r) ∨ ∃ q next, c = .await q next) ∧
      c.Guarantees Inv Later (Post i) w.shared) ?_ ?_
  · rintro w ⟨hw, hnone⟩
    exact ⟨hinit _ hw, fun i c hmem => absurd (hnone ▸ hmem) List.not_mem_nil⟩
  rintro w label w' ⟨hinv, hcalls⟩ - hs
  cases label with
  | start i =>
    obtain rfl := Option.some.inj hs
    obtain ⟨hinv', hlater, hnext⟩ := (hbody i _ hinv).advance hrefl htrans hinv
    refine ⟨hinv', fun j c hmem => ?_⟩
    rcases List.mem_append.mp hmem with hmem | hmem
    · obtain ⟨hwaits, hc⟩ := hcalls j c hmem
      exact ⟨hwaits, hc.later htrans hstable hwaits hlater⟩
    · obtain ⟨rfl, rfl⟩ := Prod.mk.inj (List.mem_singleton.mp hmem)
      exact ⟨Async.advance_waits _ _, hnext⟩
  | answer k answers =>
    change CallWorld.step body w (.answer k answers) = some w' at hs
    unfold CallWorld.step at hs
    dsimp only at hs
    split at hs
    · rename_i i q next hk
      obtain rfl := Option.some.inj hs
      obtain ⟨-, hwaiting⟩ := hcalls i _ (List.mem_of_getElem? hk)
      obtain ⟨hinv', hlater, hnext⟩ :=
        (hwaiting _ hinv (hrefl _) (answers q)).advance hrefl htrans hinv
      refine ⟨hinv', fun j c hmem => ?_⟩
      rcases List.mem_or_eq_of_mem_set hmem with hmem | hmem
      · obtain ⟨hwaits, hc⟩ := hcalls j c hmem
        exact ⟨hwaits, hc.later htrans hstable hwaits hlater⟩
      · obtain ⟨rfl, rfl⟩ := Prod.mk.inj hmem
        exact ⟨Async.advance_waits _ _, hnext⟩
    · exact absurd hs (Option.some_ne_none w').symm

variable (Inv Later) in
/-- The rule where only results are promised anything. -/
theorem ensured_of_reachable (P : ι → σ → α → Prop) (hrefl : ∀ s, Later s s)
    (htrans : ∀ {s t u}, Later s t → Later t u → Later s u)
    (hstable : ∀ {i s s' a}, Later s s' → P i s a → P i s' a)
    (hinit : ∀ s, Init s → Inv s)
    (hbody : ∀ i s, Inv s → (body i).Ensures Inv Later (P i) s)
    {w : CallWorld Q A σ ε ι α} (h : (callMachine Init body).Reachable w) {i : ι} {a : α}
    (hcall : (i, Async.done (.ok a)) ∈ w.calls) : P i w.shared a := by
  let Post : ι → σ → Except ε α → Prop := fun i s r => ∀ a, r = .ok a → P i s a
  have hresults : ∀ {i s s' r}, Later s s' → Post i s r → Post i s' r :=
    fun hlater hr a ha => hstable hlater (hr a ha)
  have hguaranteed := guaranteed_of_reachable hrefl htrans @hresults hinit hbody h
  exact hguaranteed.2 i _ hcall a rfl

end CallMachine

end HoodSentry
