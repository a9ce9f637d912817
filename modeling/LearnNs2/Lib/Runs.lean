import Mathlib.Algebra.BigOperators.Group.List.Basic
import Mathlib.Data.List.Chain
import Mathlib.Order.Basic

/-!
# Labelled runs

`Run Step s es t` is a finite run from `s` to `t`; its labels `es` are the
history, oldest first. The rules below turn what one step preserves into what
every run preserves. Nothing here depends on what is being run.
-/

namespace LabelledRuns

set_option autoImplicit false

universe u v w

section Runs

variable {σ : Type u} {ε : Type v}

inductive Run (Step : σ → ε → σ → Prop) : σ → List ε → σ → Prop where
  | nil (s : σ) : Run Step s [] s
  | snoc {s t u : σ} {es : List ε} {e : ε} :
      Run Step s es t → Step t e u → Run Step s (es ++ [e]) u

namespace Run

variable {Step : σ → ε → σ → Prop} {s t u : σ} {es fs : List ε} {e : ε}

theorem single (h : Step s e t) : Run Step s [e] t := .snoc (.nil s) h

theorem append (hst : Run Step s es t) (htu : Run Step t fs u) : Run Step s (es ++ fs) u := by
  induction htu with
  | nil => simpa using hst
  | snoc _ hstep ih => simpa only [List.append_assoc] using ih.snoc hstep

theorem cons (h : Step s e t) (htu : Run Step t es u) : Run Step s (e :: es) u :=
  (single h).append htu

theorem split (run : Run Step s (es ++ fs) t) : ∃ u, Run Step s es u ∧ Run Step u fs t := by
  generalize hgs : es ++ fs = gs at run
  induction run generalizing fs with
  | nil =>
    obtain ⟨rfl, rfl⟩ := List.append_eq_nil_iff.mp hgs
    exact ⟨s, .nil s, .nil s⟩
  | @snoc t u gs e hrun hstep ih =>
    rcases List.eq_nil_or_concat' fs with rfl | ⟨fs, f, rfl⟩
    · rw [List.append_nil] at hgs
      exact ⟨u, hgs ▸ hrun.snoc hstep, .nil u⟩
    · rw [← List.append_assoc] at hgs
      obtain ⟨hgs, he⟩ := List.append_inj' hgs rfl
      obtain ⟨v, hes, hfs⟩ := ih hgs
      obtain rfl : f = e := by simpa using he
      exact ⟨v, hes, hfs.snoc hstep⟩

theorem of_single (run : Run Step s [e] t) : Step s e t := by
  generalize hgs : [e] = gs at run
  cases run with
  | nil => cases hgs
  | @snoc u _ es f hrun hstep =>
    obtain ⟨rfl, rfl⟩ : es = [] ∧ f = e := by
      cases es with
      | nil => simpa using hgs.symm
      | cons g es => simp at hgs
    generalize hnil : ([] : List ε) = es at hrun
    cases hrun with
    | nil => exact hstep
    | snoc => simp at hnil

theorem of_cons (run : Run Step s (e :: es) t) : ∃ u, Step s e u ∧ Run Step u es t := by
  have hrun : Run Step s ([e] ++ es) t := run
  obtain ⟨u, hhead, htail⟩ := hrun.split
  exact ⟨u, hhead.of_single, htail⟩

/-- The induction behind every rule below. The step may use that its label
belongs to the whole history, which is how assumptions on a run enter. -/
theorem induct (Inv : List ε → σ → Prop) (run : Run Step s es t) (start : Inv [] s)
    (step : ∀ {pre s e t}, e ∈ es → Inv pre s → Step s e t → Inv (pre ++ [e]) t) :
    Inv es t := by
  induction run with
  | nil => exact start
  | snoc _ hstep ih =>
    refine step (by simp) (ih ?_) hstep
    exact fun he => step (List.mem_append_left _ he)

theorem invariant (Inv : σ → Prop) (run : Run Step s es t) (start : Inv s)
    (step : ∀ {s e t}, e ∈ es → Inv s → Step s e t → Inv t) : Inv t :=
  run.induct (fun _ s => Inv s) start step

theorem labels (Inv : σ → Prop) {Q : ε → Prop} (run : Run Step s es t) (start : Inv s)
    (step : ∀ {s e t}, e ∈ es → Inv s → Step s e t → Inv t)
    (label : ∀ {s e t}, Inv s → Step s e t → Q e) : ∀ e ∈ es, Q e := by
  have h : Inv t ∧ ∀ e ∈ es, Q e := by
    refine run.induct (fun pre s => Inv s ∧ ∀ e ∈ pre, Q e) ⟨start, by simp⟩ ?_
    rintro pre s e t he ⟨hs, hpre⟩ hstep
    refine ⟨step he hs hstep, fun f hf => ?_⟩
    rcases List.mem_append.mp hf with hf | hf
    · exact hpre f hf
    · rw [List.mem_singleton.mp hf]
      exact label hs hstep
  exact h.2

/-- Bookkeeping: if every step moves exactly what its label says into and out
of the stock, then so does the whole run. -/
theorem balance {M : Type w} [AddCommMonoid M] {stock : σ → M} {income outgo : ε → M}
    (run : Run Step s es t)
    (step : ∀ {s e t}, e ∈ es → Step s e t → stock s + income e = stock t + outgo e) :
    stock s + (es.map income).sum = stock t + (es.map outgo).sum := by
  refine run.induct
    (fun pre t => stock s + (pre.map income).sum = stock t + (pre.map outgo).sum) rfl ?_
  intro pre a e b he ih hstep
  simp only [List.map_append, List.map_cons, List.map_nil, List.sum_append, List.sum_cons,
    List.sum_nil, add_zero]
  calc stock s + ((pre.map income).sum + income e)
      = stock a + income e + (pre.map outgo).sum := by
        rw [← add_assoc, ih, add_right_comm]
    _ = stock b + ((pre.map outgo).sum + outgo e) := by
        rw [step he hstep, add_right_comm, add_assoc]

end Run

end Runs

section Countdown

variable {α : Type u} {R : α → α → Prop} {m : α → Int}

/-- A counter that every link from above zero lowers by one and leaves above
zero bounds the length of a chain started there. -/
theorem isChain_length_lt (hR : ∀ {a b}, R a b → 0 < m a → m b = m a - 1 ∧ 0 < m b) :
    ∀ {l : List α} {a : α}, (a :: l).IsChain R → 0 < m a → (l.length : Int) < m a := by
  intro l
  induction l with
  | nil => intro a _ ha; simpa using ha
  | cons b l ih =>
    intro a hchain ha
    rw [List.isChain_cons_cons] at hchain
    obtain ⟨hm, hb⟩ := hR hchain.1 ha
    have hl := ih hchain.2 hb
    rw [List.length_cons]
    omega

end Countdown

end LabelledRuns
