/-
# `Base.Sections` — turns that make up sections

Threads take turns, and what one of them does under a lock takes many turns.  A coarser view
has one step for all of them: the section as a whole.  `Sections` says what has to be shown
turn by turn for the coarser view to be right.  While no section is going on, the state shows
that of the coarser loop; while one is, what it has left so far is a beginning of what its
step leaves; and the turn that ends it, or raises, ends or raises as the step does.

Then every run is one of the coarser loop, but for a section that is still going on
(`Sections.before`), and what a turn raises is raised there too (`Sections.raises`).
-/
import LeoEM.Base.Logged

namespace Logged

variable {ω ε σ τ μ ι α β γ : Type}

theorem bind_assoc (x : Logged ω ε α) (f : α → Logged ω ε β) (g : β → Logged ω ε γ) :
    x >>= f >>= g = x >>= fun a => f a >>= g := by
  cases hx : x.result with
  | error e => rw [bind_of_error hx, bind_of_error hx, bind_of_error rfl]
  | ok a =>
      rw [bind_of_ok hx, bind_of_ok hx]
      cases hf : (f a).result with
      | error e => rw [bind_of_error hf, bind_of_error rfl]
      | ok b =>
          rw [bind_of_ok hf, bind_of_ok (show (⟨x.log ++ (f a).log, .ok b⟩ : Logged ω ε β).result =
            .ok b from rfl), List.append_assoc]

/-- `x` behind what has been left. -/
def behind (log : List ω) (x : Logged ω ε α) : Logged ω ε α := ⟨log ++ x.log, x.result⟩

theorem behind_nil (x : Logged ω ε α) : behind [] x = x := rfl

theorem behind_bind_ok {x : Logged ω ε α} {l : List ω} {a : α} (h : x = ⟨l, .ok a⟩)
    (log : List ω) (f : α → Logged ω ε β) :
    behind log (x >>= f) = behind (log ++ l) (f a) := by
  rw [bind_of_ok (show x.result = .ok a by rw [h]), behind, behind, h, List.append_assoc]

theorem behind_bind_error {x : Logged ω ε α} {l : List ω} {e : ε} (h : x = ⟨l, .error e⟩)
    (log : List ω) (f : α → Logged ω ε β) : behind log (x >>= f) = ⟨log ++ l, .error e⟩ := by
  rw [bind_of_error (show x.result = .error e by rw [h]), behind, h]

/-! ## A loop as a whole -/

/-- The visits of a loop, one after the other. -/
def loop (body : μ → ι → Logged ω ε μ) : μ → List ι → Logged ω ε μ
  | m, [] => pure m
  | m, x :: xs => body m x >>= fun m' => loop body m' xs

section Loop

variable {body : μ → ι → Logged ω ε μ}

theorem loop_append : ∀ (m : μ) (xs ys : List ι),
    loop body m (xs ++ ys) = loop body m xs >>= fun m' => loop body m' ys := by
  intro m xs ys
  induction xs generalizing m with
  | nil => rw [List.nil_append, show loop body m [] = pure m from rfl, pure_bind]
  | cons x xs ih =>
      rw [List.cons_append, loop, loop, bind_assoc]
      exact congrArg (body m x >>= ·) (funext fun m' => ih m')

theorem loop_snoc {m m' : μ} {xs : List ι} {log : List ω} (h : loop body m xs = ⟨log, .ok m'⟩)
    (x : ι) : loop body m (xs ++ [x]) = ⟨log ++ (body m' x).log, (body m' x).result⟩ := by
  have hlast : loop body m' [x] = body m' x := by
    rw [loop]
    cases hx : (body m' x).result with
    | ok t =>
        rw [bind_of_ok hx, loop, pure_log, pure_result, List.append_nil, ← hx]
    | error e => rw [bind_of_error hx, ← hx]
  rw [loop_append, h, bind_of_ok rfl, hlast]

/-- A loop comes to its end if every visit does. -/
theorem loop_returns {xs : List ι} (h : ∀ m, ∀ x ∈ xs, ∃ m', (body m x).result = .ok m') :
    ∀ m : μ, ∃ m', (loop body m xs).result = .ok m' := by
  induction xs with
  | nil => exact fun m => ⟨m, rfl⟩
  | cons x xs ih =>
      intro m
      obtain ⟨m₁, hok⟩ := h m x List.mem_cons_self
      rw [loop, bind_of_ok hok]
      exact ih (fun m y hy => h m y (List.mem_cons_of_mem x hy)) m₁

/-- The visit behind a loop that has come to its end. -/
theorem visits_of_loop {x : ι} : ∀ {m m' : μ} {xs : List ι} {log : List ω},
    loop body m xs = ⟨log, .ok m'⟩ →
    (visits body m (xs ++ [x]))[xs.length]? = some ⟨x, m', body m' x⟩ ∧
      logUpTo (visits body m (xs ++ [x])) xs.length = log := by
  intro m m' xs
  induction xs generalizing m with
  | nil =>
      intro log h
      obtain ⟨rfl, hm⟩ := Logged.mk.inj h
      obtain rfl := Except.ok.inj hm
      exact ⟨rfl, rfl⟩
  | cons y xs ih =>
      intro log h
      rw [loop] at h
      cases hy : (body m y).result with
      | error e =>
          rw [bind_of_error hy] at h
          cases (Logged.mk.inj h).2
      | ok m₁ =>
          rw [bind_of_ok hy] at h
          obtain ⟨hlog, hresult⟩ := Logged.mk.inj h
          obtain ⟨hv, hup⟩ := @ih m₁ (loop body m₁ xs).log (by rw [← hresult])
          rw [List.cons_append, visits, hy]
          refine ⟨hv, ?_⟩
          rw [List.length_cons, logUpTo_cons, hup, hlog]

end Loop

/-! ## Sections -/

/-- Sections of turns `turn`, each as a whole a step `body`.  `T` is known of the turns, and `Q`
is kept of the steps. -/
structure Sections (turn : σ → τ → Logged ω ε σ) (body : μ → ι → Logged ω ε μ) (T : τ → Prop)
    (Q : ι → Prop) where
  /-- No section is going on behind these steps. -/
  free : List ι → σ → μ → Prop
  /-- One is, and has left this so far. -/
  inside : List ι → σ → μ → List ω → Prop
  turn_free : ∀ {xs s m t}, free xs s m → T t →
    ∃ s', turn s t = ⟨[], .ok s'⟩ ∧ (free xs s' m ∨ inside xs s' m [])
  turn_inside : ∀ {xs s m log t}, inside xs s m log → T t →
    (∃ l s', turn s t = ⟨l, .ok s'⟩ ∧ inside xs s' m (log ++ l)) ∨
    (∃ x l s' m', Q x ∧ turn s t = ⟨l, .ok s'⟩ ∧ body m x = ⟨log ++ l, .ok m'⟩ ∧
      free (xs ++ [x]) s' m') ∨
    (∃ x l e, Q x ∧ turn s t = ⟨l, .error e⟩ ∧ body m x = ⟨log ++ l, .error e⟩)

namespace Sections

variable {turn : σ → τ → Logged ω ε σ} {body : μ → ι → Logged ω ε μ} {T : τ → Prop}
  {Q : ι → Prop} (S : Sections turn body T Q) {s₀ : σ} {m₀ : μ} {ts : List τ}

/-- The steps of a run so far, with what they have left. -/
def Shows (s₀ : σ) (m₀ : μ) (ts : List τ) (k : Nat) (s : σ) (xs : List ι) (m : μ)
    (sent : List ω) : Prop :=
  (∀ x ∈ xs, Q x) ∧ loop body m₀ xs = ⟨sent, .ok m⟩ ∧
    ((S.free xs s m ∧ logUpTo (visits turn s₀ ts) k = sent) ∨
      ∃ l, S.inside xs s m l ∧ logUpTo (visits turn s₀ ts) k = sent ++ l)

/-- **Every run is one of the steps**, but for a section that is going on. -/
theorem before (h₀ : S.free [] s₀ m₀) (hT : ∀ t ∈ ts, T t) {k : Nat} {v : Visit σ τ ω ε}
    (hv : (visits turn s₀ ts)[k]? = some v) :
    ∃ xs m sent, S.Shows s₀ m₀ ts k v.before xs m sent := by
  refine visits_inv (fun k s => ∃ xs m sent, S.Shows s₀ m₀ ts k s xs m sent)
    ⟨[], m₀, [], fun _ h => absurd h List.not_mem_nil, rfl, Or.inl ⟨h₀, rfl⟩⟩ ?_ hv
  rintro k v s' hv ⟨xs, m, sent, hQ, hloop, hshows⟩ hok
  obtain ⟨hinput, hdone⟩ := visits_input hv
  have ht := hT v.input (List.mem_of_getElem? hinput)
  rw [hdone] at hok
  have hlog : ∀ {l : List ω} {s'' : σ}, turn v.before v.input = ⟨l, .ok s''⟩ → s'' = s' ∧
      logUpTo (visits turn s₀ ts) (k + 1) = logUpTo (visits turn s₀ ts) k ++ l := by
    intro l s'' hturn
    rw [logUpTo_succ hv, hdone, hturn]
    rw [hturn] at hok
    exact ⟨Except.ok.inj hok, rfl⟩
  rcases hshows with ⟨hfree, hup⟩ | ⟨log, hinside, hup⟩
  · obtain ⟨s'', hturn, hnext⟩ := S.turn_free hfree ht
    obtain ⟨rfl, hleft⟩ := hlog hturn
    rw [List.append_nil, hup] at hleft
    refine ⟨xs, m, sent, hQ, hloop, hnext.imp (⟨·, hleft⟩) fun h => ⟨[], h, ?_⟩⟩
    rw [hleft, List.append_nil]
  · rcases S.turn_inside hinside ht with ⟨l, s'', hturn, hnext⟩ |
      ⟨x, l, s'', m', hx, hturn, hbody, hnext⟩ | ⟨x, l, e, -, hturn, -⟩
    · obtain ⟨rfl, hleft⟩ := hlog hturn
      rw [hup, List.append_assoc] at hleft
      exact ⟨xs, m, sent, hQ, hloop, Or.inr ⟨log ++ l, hnext, hleft⟩⟩
    · obtain ⟨rfl, hleft⟩ := hlog hturn
      rw [hup, List.append_assoc] at hleft
      refine ⟨xs ++ [x], m', sent ++ (log ++ l), fun y hy => ?_, ?_, Or.inl ⟨hnext, hleft⟩⟩
      · rcases List.mem_append.mp hy with hy | hy
        · exact hQ y hy
        · exact List.mem_singleton.mp hy ▸ hx
      · rw [loop_snoc hloop, hbody]
    · rw [hturn] at hok
      cases hok

/-- **What a turn raises, the step of its section raises**, with the same left behind. -/
theorem raises {k : Nat} {v : Visit σ τ ω ε} {xs : List ι} {m : μ} {sent : List ω} {e : ε}
    (hT : ∀ t ∈ ts, T t) (hv : (visits turn s₀ ts)[k]? = some v)
    (h : S.Shows s₀ m₀ ts k v.before xs m sent) (he : v.done.result = .error e) :
    ∃ x, Q x ∧
      loop body m₀ (xs ++ [x]) = ⟨logUpTo (visits turn s₀ ts) (k + 1), .error e⟩ := by
  obtain ⟨-, hloop, hshows⟩ := h
  obtain ⟨hinput, hdone⟩ := visits_input hv
  have ht := hT v.input (List.mem_of_getElem? hinput)
  rw [hdone] at he
  rcases hshows with ⟨hfree, -⟩ | ⟨log, hinside, hup⟩
  · obtain ⟨s', hturn, -⟩ := S.turn_free hfree ht
    rw [hturn] at he
    cases he
  · rcases S.turn_inside hinside ht with ⟨l, s', hturn, -⟩ | ⟨x, l, s', m', -, hturn, -, -⟩ |
      ⟨x, l, e', hx, hturn, hbody⟩
    · rw [hturn] at he
      cases he
    · rw [hturn] at he
      cases he
    · rw [hturn] at he
      obtain rfl := Except.error.inj he
      refine ⟨x, hx, ?_⟩
      rw [loop_snoc hloop, hbody, logUpTo_succ hv, hdone, hturn, hup, List.append_assoc]

end Sections

end Logged
