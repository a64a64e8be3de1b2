/-
# `Base.Logged` — computations that leave a log and may raise, and their loops

A `Logged ω ε α` is what one run of a piece of imperative code comes to: the
entries `ω` it left behind, in program order, and either the value it returned
or the exception `ε` that ended it.  The log is kept on both sides: what was
written before an exception stays written.

`visits` runs a loop body over a list of inputs.  Its result is the list of the
visits that really happened; a visit that raises is the last one.  Every
property of a run is then a property of the `k`-th visit, and three rules give
all of them: `visits_input` (the body is run on the `k`-th input),
`visits_inv` (a property of the state that every completed visit hands on holds
before each visit) and `visits_total` (a loop whose visits never raise makes
them all).

The last section is about clocks: `SinceLast ev k c` says that an event was last
seen `c` visits before visit `k`.
-/
import Mathlib.Data.List.Basic

/-- A log together with the value returned or the exception raised. -/
structure Logged (ω ε α : Type) where
  log : List ω
  result : Except ε α

namespace Logged

variable {ω ε α β : Type}

instance : Monad (Logged ω ε) where
  pure a := ⟨[], .ok a⟩
  bind x f :=
    match x.result with
    | .ok a => ⟨x.log ++ (f a).log, (f a).result⟩
    | .error e => ⟨x.log, .error e⟩

/-- Leave one entry. -/
def tell (w : ω) : Logged ω ε Unit := ⟨[w], .ok ()⟩

/-- Leave several entries. -/
def tellAll (ws : List ω) : Logged ω ε Unit := ⟨ws, .ok ()⟩

/-- Raise an exception. -/
def raise (e : ε) : Logged ω ε α := ⟨[], .error e⟩

/-- A computation without a log. -/
def ofExcept (x : Except ε α) : Logged ω ε α := ⟨[], x⟩

/-- `try x except: h`: the handler continues after the log `x` has left. -/
def tryCatch (x : Logged ω ε α) (h : ε → Logged ω ε α) : Logged ω ε α :=
  match x.result with
  | .ok _ => x
  | .error e => ⟨x.log ++ (h e).log, (h e).result⟩

@[simp] theorem pure_log (a : α) : (pure a : Logged ω ε α).log = [] := rfl

@[simp] theorem pure_result (a : α) : (pure a : Logged ω ε α).result = .ok a := rfl

@[simp] theorem tell_log (w : ω) : (tell w : Logged ω ε Unit).log = [w] := rfl

@[simp] theorem tell_result (w : ω) : (tell w : Logged ω ε Unit).result = .ok () := rfl

@[simp] theorem tellAll_log (ws : List ω) : (tellAll ws : Logged ω ε Unit).log = ws := rfl

@[simp] theorem tellAll_result (ws : List ω) :
    (tellAll ws : Logged ω ε Unit).result = .ok () := rfl

@[simp] theorem raise_log (e : ε) : (raise e : Logged ω ε α).log = [] := rfl

@[simp] theorem raise_result (e : ε) : (raise e : Logged ω ε α).result = .error e := rfl

@[simp] theorem ofExcept_log (x : Except ε α) : (ofExcept x : Logged ω ε α).log = [] := rfl

@[simp] theorem ofExcept_result (x : Except ε α) :
    (ofExcept x : Logged ω ε α).result = x := rfl

/-- A computation whose first part returned `a` goes on with what follows at `a`. -/
theorem bind_of_ok {x : Logged ω ε α} {a : α} (h : x.result = .ok a) (f : α → Logged ω ε β) :
    x >>= f = ⟨x.log ++ (f a).log, (f a).result⟩ := by
  show (match x.result with
    | .ok a => (⟨x.log ++ (f a).log, (f a).result⟩ : Logged ω ε β)
    | .error e => ⟨x.log, .error e⟩) = _
  rw [h]

/-- A computation whose first part raised stops there, its log kept. -/
theorem bind_of_error {x : Logged ω ε α} {e : ε} (h : x.result = .error e)
    (f : α → Logged ω ε β) : x >>= f = ⟨x.log, .error e⟩ := by
  show (match x.result with
    | .ok a => (⟨x.log ++ (f a).log, (f a).result⟩ : Logged ω ε β)
    | .error e => ⟨x.log, .error e⟩) = _
  rw [h]

/-- A computation returns exactly if both its parts do. -/
theorem bind_eq_ok {x : Logged ω ε α} {f : α → Logged ω ε β} {b : β} :
    (x >>= f).result = .ok b ↔ ∃ a, x.result = .ok a ∧ (f a).result = .ok b := by
  cases h : x.result with
  | ok a => rw [bind_of_ok h]; simp
  | error e => rw [bind_of_error h]; simp

theorem tell_bind (w : ω) (f : Unit → Logged ω ε β) :
    tell w >>= f = ⟨w :: (f ()).log, (f ()).result⟩ := bind_of_ok rfl f

theorem tellAll_bind (ws : List ω) (f : Unit → Logged ω ε β) :
    tellAll ws >>= f = ⟨ws ++ (f ()).log, (f ()).result⟩ := bind_of_ok rfl f

theorem pure_bind (a : α) (f : α → Logged ω ε β) : pure a >>= f = f a := by
  rw [bind_of_ok (pure_result _)]
  rfl

theorem ofExcept_ok_bind (a : α) (f : α → Logged ω ε β) :
    ofExcept (.ok a) >>= f = f a := pure_bind a f

theorem ofExcept_error_bind (e : ε) (f : α → Logged ω ε β) :
    (ofExcept (.error e) : Logged ω ε α) >>= f = raise e :=
  bind_of_error (ofExcept_result _) f

/-- `for x in xs: f(x)`, for what `f` leaves behind. -/
def forEach {ι : Type} (f : ι → Logged ω ε Unit) : List ι → Logged ω ε Unit
  | [] => pure ()
  | x :: xs => do
      f x
      forEach f xs

/-- A loop whose rounds all return leaves their logs one after the other. -/
theorem forEach_of_ok {ι : Type} {f : ι → Logged ω ε Unit} : ∀ {xs : List ι},
    (∀ x ∈ xs, (f x).result = .ok ()) →
    forEach f xs = ⟨xs.flatMap fun x => (f x).log, .ok ()⟩ := by
  intro xs
  induction xs with
  | nil => intro _; rfl
  | cons x xs ih =>
      intro h
      rw [forEach, bind_of_ok (h x List.mem_cons_self),
        ih fun y hy => h y (List.mem_cons_of_mem x hy)]
      rfl

/-- A loop that leaves one entry a round. -/
theorem forEach_tell {ι : Type} {f : ι → Logged ω ε Unit} {w : ι → ω} {xs : List ι}
    (h : ∀ x ∈ xs, f x = tell (w x)) : forEach f xs = tellAll (xs.map w) := by
  rw [forEach_of_ok fun x hx => by rw [h x hx]; rfl, tellAll, List.map_eq_flatMap]
  congr 1
  exact List.flatMap_congr fun x hx => by rw [h x hx]; rfl

/-- Every entry a computation leaves satisfies `P`, and an exception it ends in `Q`. -/
structure Within (P : ω → Prop) (Q : ε → Prop) (x : Logged ω ε α) : Prop where
  leaves : ∀ w ∈ x.log, P w
  raises : ∀ e, x.result = .error e → Q e

section Within

variable {P : ω → Prop} {Q : ε → Prop}

theorem within_pure (a : α) : Within P Q (pure a : Logged ω ε α) :=
  ⟨fun _ h => absurd h List.not_mem_nil, fun _ h => nomatch h⟩

theorem within_raise {e : ε} (h : Q e) : Within P Q (raise e : Logged ω ε α) := by
  refine ⟨fun _ h => absurd h List.not_mem_nil, ?_⟩
  intro e' he
  cases he
  exact h

theorem within_tellAll {ws : List ω} (h : ∀ w ∈ ws, P w) :
    Within P Q (tellAll ws : Logged ω ε Unit) := ⟨h, fun _ h => nomatch h⟩

theorem within_tell {w : ω} (h : P w) : Within P Q (tell w : Logged ω ε Unit) := by
  refine @within_tellAll ω ε P Q [w] ?_
  intro v hv
  exact List.mem_singleton.mp hv ▸ h

theorem within_bind {x : Logged ω ε α} {f : α → Logged ω ε β} (hx : Within P Q x)
    (hf : ∀ a, Within P Q (f a)) : Within P Q (x >>= f) := by
  cases h : x.result with
  | error e =>
      rw [bind_of_error h]
      refine ⟨hx.leaves, ?_⟩
      intro e' he
      cases he
      exact hx.raises e h
  | ok a =>
      rw [bind_of_ok h]
      refine ⟨?_, (hf a).raises⟩
      intro w hw
      rcases List.mem_append.mp hw with hw | hw
      · exact hx.leaves w hw
      · exact (hf a).leaves w hw

theorem within_forEach {ι : Type} {f : ι → Logged ω ε Unit} (hf : ∀ x, Within P Q (f x))
    (xs : List ι) : Within P Q (forEach f xs) := by
  induction xs with
  | nil => exact within_pure ()
  | cons x xs ih => exact within_bind (hf x) fun _ => ih

end Within

/-! ## Loops -/

/-- One visit of a loop body: the input it was run on, the state it found, and
what it did. -/
structure Visit (σ ι ω ε : Type) where
  input : ι
  before : σ
  done : Logged ω ε σ

variable {σ ι : Type}

/-- `for x in xs: s = body(s, x)`, as the list of the visits made. -/
def visits (body : σ → ι → Logged ω ε σ) : σ → List ι → List (Visit σ ι ω ε)
  | _, [] => []
  | s, x :: xs =>
      ⟨x, s, body s x⟩ ::
        match (body s x).result with
        | .ok s' => visits body s' xs
        | .error _ => []

section Rules

variable {body : σ → ι → Logged ω ε σ} {s : σ} {xs : List ι}

/-- The `k`-th visit runs the body on the `k`-th input. -/
theorem visits_input : ∀ {s : σ} {xs : List ι} {k : Nat} {v : Visit σ ι ω ε},
    (visits body s xs)[k]? = some v → xs[k]? = some v.input ∧ v.done = body v.before v.input := by
  intro s xs
  induction xs generalizing s with
  | nil =>
      intro k v h
      simp [visits] at h
  | cons x xs ih =>
      intro k v h
      cases k with
      | zero =>
          simp only [visits, List.getElem?_cons_zero, Option.some.injEq] at h
          subst h
          exact ⟨rfl, rfl⟩
      | succ k =>
          simp only [visits, List.getElem?_cons_succ] at h ⊢
          cases hb : (body s x).result with
          | ok s' => rw [hb] at h; exact ih h
          | error e => simp [hb] at h

theorem visits_zero {v : Visit σ ι ω ε} (h : (visits body s xs)[0]? = some v) :
    v.before = s := by
  cases xs with
  | nil => simp [visits] at h
  | cons x xs =>
      simp only [visits, List.getElem?_cons_zero, Option.some.injEq] at h
      subst h
      rfl

/-- A loop with an input makes a first visit, from the state it was started in. -/
theorem visits_first (body : σ → ι → Logged ω ε σ) (s : σ) {x : ι} (hx : xs[0]? = some x) :
    ∃ v, (visits body s xs)[0]? = some v ∧ v.input = x ∧ v.before = s := by
  cases xs with
  | nil => simp at hx
  | cons y ys =>
      simp only [List.getElem?_cons_zero, Option.some.injEq] at hx
      subst hx
      exact ⟨⟨y, s, body s y⟩, rfl, rfl, rfl⟩

/-- Visit `k + 1` starts from the state visit `k` returned. -/
theorem visits_succ : ∀ {s : σ} {xs : List ι} {k : Nat} {v' : Visit σ ι ω ε},
    (visits body s xs)[k + 1]? = some v' →
    ∃ v, (visits body s xs)[k]? = some v ∧ v.done.result = .ok v'.before := by
  intro s xs
  induction xs generalizing s with
  | nil =>
      intro k v' h
      simp [visits] at h
  | cons x xs ih =>
      intro k v' h
      simp only [visits, List.getElem?_cons_succ] at h
      cases hb : (body s x).result with
      | error e => simp [hb] at h
      | ok s' =>
          rw [hb] at h
          cases k with
          | zero => exact ⟨⟨x, s, body s x⟩, rfl, by rw [visits_zero h]; exact hb⟩
          | succ k =>
              obtain ⟨v, hv, hr⟩ := ih h
              exact ⟨v, by simp only [visits, List.getElem?_cons_succ, hb]; exact hv, hr⟩

/-- A visit that returned is followed by one on the next input, if there is one. -/
theorem visits_next : ∀ {s : σ} {xs : List ι} {k : Nat} {v : Visit σ ι ω ε} {t : σ} {x : ι},
    (visits body s xs)[k]? = some v → v.done.result = .ok t → xs[k + 1]? = some x →
    (visits body s xs)[k + 1]? = some ⟨x, t, body t x⟩ := by
  intro s xs
  induction xs generalizing s with
  | nil =>
      intro k v t x h
      simp [visits] at h
  | cons y xs ih =>
      intro k v t x h hr hx
      cases k with
      | zero =>
          simp only [visits, List.getElem?_cons_zero, Option.some.injEq] at h
          subst h
          replace hr : (body s y).result = .ok t := hr
          simp only [visits, List.getElem?_cons_succ, hr] at hx ⊢
          cases xs with
          | nil => simp at hx
          | cons z xs =>
              simp only [List.getElem?_cons_zero, Option.some.injEq] at hx
              subst hx
              rfl
      | succ k =>
          simp only [visits, List.getElem?_cons_succ] at h hx ⊢
          cases hb : (body s y).result with
          | error e => simp [hb] at h
          | ok s' => rw [hb] at h; exact ih h hr hx

/-- **The invariant rule.**  What holds before the first visit and is handed on by
every visit that returns, holds before every visit. -/
theorem visits_inv (P : Nat → σ → Prop) (h0 : P 0 s)
    (hstep : ∀ (k : Nat) (v : Visit σ ι ω ε) t', (visits body s xs)[k]? = some v →
      P k v.before → v.done.result = .ok t' → P (k + 1) t') :
    ∀ {k : Nat} {v : Visit σ ι ω ε}, (visits body s xs)[k]? = some v → P k v.before := by
  intro k
  induction k with
  | zero => intro v h; rw [visits_zero h]; exact h0
  | succ k ih =>
      intro v' h
      obtain ⟨v, hv, hr⟩ := visits_succ h
      exact hstep k v v'.before hv (ih hv) hr

/-- **The progress rule.**  If, under the invariant, every visit returns and hands the
invariant on, the loop visits every input. -/
theorem visits_total (P : Nat → σ → Prop) (h0 : P 0 s)
    (hstep : ∀ k t x, xs[k]? = some x → P k t →
      ∃ t', (body t x).result = .ok t' ∧ P (k + 1) t') :
    ∀ {k : Nat} {x : ι}, xs[k]? = some x →
      ∃ v, (visits body s xs)[k]? = some v ∧ v.input = x ∧ P k v.before := by
  intro k
  induction k with
  | zero =>
      intro x hx
      obtain ⟨v, hv, hvx, hb⟩ := visits_first body s hx
      exact ⟨v, hv, hvx, hb ▸ h0⟩
  | succ k ih =>
      intro x hx
      have hk : k < xs.length := by
        have := (List.getElem?_eq_some_iff.mp hx).1
        omega
      obtain ⟨v, hv, hvx, hP⟩ := ih (List.getElem?_eq_getElem hk)
      obtain ⟨t', hr, hP'⟩ := hstep k v.before v.input (visits_input hv).1 hP
      exact ⟨⟨x, t', body t' x⟩, visits_next hv ((visits_input hv).2 ▸ hr) hx, rfl, hP'⟩

/-- A loop whose body always returns visits every input. -/
theorem visits_length (h : ∀ t x, ∃ t', (body t x).result = .ok t') :
    ∀ (s : σ) (xs : List ι), (visits body s xs).length = xs.length := by
  intro s xs
  induction xs generalizing s with
  | nil => rfl
  | cons x xs ih =>
      obtain ⟨s', hs'⟩ := h s x
      simp only [visits, hs', List.length_cons, ih]

/-- There are no more visits than inputs. -/
theorem visits_lt {k : Nat} {v : Visit σ ι ω ε} (h : (visits body s xs)[k]? = some v) :
    k < xs.length :=
  (List.getElem?_eq_some_iff.mp (visits_input h).1).1

end Rules

/-! ## Two runs side by side -/

/-- **The simulation rule.**  Two loops whose bodies, up to input `n`, both return and keep a
relation between their states, both visit these inputs, from related states. -/
theorem visits_sim {τ κ ω' ε' : Type} {body : σ → ι → Logged ω ε σ}
    {body' : τ → κ → Logged ω' ε' τ} {s : σ} {t : τ} {xs : List ι} {ys : List κ} (n : Nat)
    (R : σ → τ → Prop) (h0 : R s t)
    (hstep : ∀ (k : Nat) (v : Visit σ ι ω ε) (w : Visit τ κ ω' ε'), k < n →
      (visits body s xs)[k]? = some v → (visits body' t ys)[k]? = some w →
      R v.before w.before →
      ∃ s' t', v.done.result = .ok s' ∧ w.done.result = .ok t' ∧ R s' t') :
    ∀ {k : Nat} {x : ι} {y : κ}, k ≤ n → xs[k]? = some x → ys[k]? = some y →
      ∃ v w, (visits body s xs)[k]? = some v ∧ (visits body' t ys)[k]? = some w ∧
        v.input = x ∧ w.input = y ∧ R v.before w.before := by
  intro k
  induction k with
  | zero =>
      intro x y _ hx hy
      obtain ⟨v, hv, hvx, hvs⟩ := visits_first body s hx
      obtain ⟨w, hw, hwy, hwt⟩ := visits_first body' t hy
      exact ⟨v, w, hv, hw, hvx, hwy, by rwa [hvs, hwt]⟩
  | succ k ih =>
      intro x y hk hx hy
      have hxk : k < xs.length := by
        have := (List.getElem?_eq_some_iff.mp hx).1
        omega
      have hyk : k < ys.length := by
        have := (List.getElem?_eq_some_iff.mp hy).1
        omega
      obtain ⟨v, w, hv, hw, -, -, hR⟩ := ih (by omega) (List.getElem?_eq_getElem hxk)
        (List.getElem?_eq_getElem hyk)
      obtain ⟨s', t', hs', ht', hR'⟩ := hstep k v w hk hv hw hR
      exact ⟨_, _, visits_next hv hs' hx, visits_next hw ht' hy, rfl, rfl, hR'⟩

/-! ## What a run has left so far -/

/-- The entries left by the first `k` visits, in the order they were left. -/
def logUpTo (vs : List (Visit σ ι ω ε)) (k : Nat) : List ω :=
  (vs.take k).flatMap fun v => v.done.log

@[simp] theorem logUpTo_zero (vs : List (Visit σ ι ω ε)) : logUpTo vs 0 = [] := rfl

theorem logUpTo_succ {vs : List (Visit σ ι ω ε)} {v : Visit σ ι ω ε} {k : Nat}
    (h : vs[k]? = some v) : logUpTo vs (k + 1) = logUpTo vs k ++ v.done.log := by
  rw [logUpTo, List.take_add_one, h, List.flatMap_append]
  simp [logUpTo]

theorem logUpTo_cons (v : Visit σ ι ω ε) (vs : List (Visit σ ι ω ε)) (k : Nat) :
    logUpTo (v :: vs) (k + 1) = v.done.log ++ logUpTo vs k := rfl

/-- **The refinement rule.**  If on these inputs every visit returns, and does in the image of a
state under `f` what it does in the state, up to `e`, then one run leaves the image of what the
other leaves. -/
theorem logUpTo_map {τ κ ω' ε' : Type} {body : σ → ι → Logged ω ε σ}
    {body' : τ → κ → Logged ω' ε' τ} (f : σ → τ) (g : ι → κ) (e : ω → ω') {xs : List ι}
    (h : ∀ t, ∀ x ∈ xs, ∃ t', (body t x).result = .ok t' ∧
      body' (f t) (g x) = ⟨(body t x).log.map e, .ok (f t')⟩) :
    ∀ (s : σ) (k : Nat), logUpTo (visits body' (f s) (xs.map g)) k =
      (logUpTo (visits body s xs) k).map e := by
  induction xs with
  | nil =>
      intro s k
      simp [visits, logUpTo]
  | cons x xs ih =>
      intro s k
      cases k with
      | zero => rfl
      | succ k =>
          obtain ⟨s', hok, hbody⟩ := h s x List.mem_cons_self
          have hok' : (body' (f s) (g x)).result = .ok (f s') := by rw [hbody]
          rw [List.map_cons, visits, visits, hok, hok', logUpTo_cons, logUpTo_cons,
            ih (fun t y hy => h t y (List.mem_cons_of_mem x hy)), List.map_append, hbody]

end Logged

/-! ## Clocks -/

/-- At visit `k` the event `ev` was last seen `c` visits ago. -/
def SinceLast (ev : Nat → Prop) (k c : Nat) : Prop :=
  c ≤ k ∧ ev (k - c) ∧ ∀ i, k - c < i → i ≤ k → ¬ ev i

namespace SinceLast

variable {ev : Nat → Prop} {k c : Nat}

theorem now (h : ev k) : SinceLast ev k 0 :=
  ⟨Nat.zero_le k, h, fun _ h₁ h₂ => absurd h₂ (Nat.not_le.mpr h₁)⟩

theorem later (h : SinceLast ev k c) (hk : ¬ ev (k + 1)) : SinceLast ev (k + 1) (c + 1) := by
  obtain ⟨hc, hev, hno⟩ := h
  refine ⟨Nat.succ_le_succ hc, by rwa [Nat.add_sub_add_right], fun i h₁ h₂ => ?_⟩
  rw [Nat.add_sub_add_right] at h₁
  rcases Nat.lt_or_ge k i with hi | hi
  · rwa [Nat.le_antisymm h₂ hi]
  · exact hno i h₁ hi

theorem unique {c' : Nat} (h : SinceLast ev k c) (h' : SinceLast ev k c') : c = c' := by
  obtain ⟨hc, hev, hno⟩ := h
  obtain ⟨hc', hev', hno'⟩ := h'
  rcases Nat.lt_trichotomy c c' with hlt | heq | hgt
  · exact absurd hev (hno' (k - c) (by omega) (by omega))
  · exact heq
  · exact absurd hev' (hno (k - c') (by omega) (by omega))

/-- A clock at zero saw its event just now. -/
theorem of_zero (h : SinceLast ev k 0) : ev k := h.2.1

end SinceLast
