import Mathlib.Algebra.BigOperators.Group.Finset.Basic
import Mathlib.Algebra.Group.Action.Defs
import Mathlib.Algebra.Order.BigOperators.Group.Finset
import Mathlib.Algebra.Order.BigOperators.Group.List
import Mathlib.Algebra.BigOperators.Ring.Finset
import Mathlib.Tactic.Linarith
import Mathlib.Tactic.Ring

/-!
# List scheduling on identical machines

Jobs are taken in a fixed order and each goes to a machine with the least load
so far.  When the jobs come in descending order of their sizes, two facts hold
of the schedule: a machine without its smallest job carries no more than any
other one, and the greatest load is at most `4/3 - 1/(3m)` of what the greatest
load is under any other assignment to the same `m` machines.
-/

namespace CloudComputing.Lib

section Load

variable {ι κ α : Type*} [DecidableEq κ] [AddCommMonoid α]

/-- The load of machine `c` when each job `x` goes to `f x` and weighs `w x`. -/
def load (f : ι → κ) (w : ι → α) (l : List ι) (c : κ) : α :=
  ((l.filter fun x => f x = c).map w).sum

variable {f : ι → κ} {w : ι → α} {l : List ι} {x : ι} {c : κ}

@[simp] theorem load_nil : load f w [] c = 0 := rfl

theorem load_cons : load f w (x :: l) c = (if f x = c then w x else 0) + load f w l c := by
  unfold load
  by_cases h : f x = c
  · rw [List.filter_cons_of_pos (by simpa using h), List.map_cons, List.sum_cons, if_pos h]
  · rw [List.filter_cons_of_neg (by simpa using h), if_neg h, zero_add]

theorem load_append {l' : List ι} :
    load f w (l ++ l') c = load f w l c + load f w l' c := by
  unfold load
  rw [List.filter_append, List.map_append, List.sum_append]

theorem load_eq_zero (h : ∀ x ∈ l, f x ≠ c) : load f w l c = 0 := by
  unfold load
  rw [List.filter_eq_nil_iff.mpr (by simpa using h), List.map_nil, List.sum_nil]

theorem load_map {ι' : Type*} {k : ι' → ι} {l : List ι'} :
    load f w (l.map k) c = load (f ∘ k) (w ∘ k) l c := by
  unfold load
  rw [List.filter_map, List.map_map]
  rfl

theorem load_perm {l' : List ι} (h : l.Perm l') : load f w l c = load f w l' c :=
  ((h.filter _).map _).sum_eq

theorem sum_load {machines : Finset κ} (h : ∀ x ∈ l, f x ∈ machines) :
    ∑ c ∈ machines, load f w l c = (l.map w).sum := by
  induction l with
  | nil => simp
  | cons x l ih =>
      have hrest := ih fun y hy => h y (List.mem_cons_of_mem x hy)
      have hown : ∑ c ∈ machines, (if f x = c then w x else 0) = w x := by
        rw [Finset.sum_ite_eq, if_pos (h x List.mem_cons_self)]
      simp only [load_cons]
      rw [Finset.sum_add_distrib, hown, hrest, List.map_cons, List.sum_cons]

end Load

section Sizes

variable {ι κ : Type*} [DecidableEq κ] {machines : Finset κ} {p : ι → ℤ} {f g : ι → κ}
  {l l₁ l₂ : List ι} {x : ι} {c d : κ} {opt : ℤ}

theorem load_nonneg (hp : ∀ x ∈ l, 0 ≤ p x) : 0 ≤ load f p l c := by
  apply List.sum_nonneg
  intro s hs
  obtain ⟨x, hx, rfl⟩ := List.mem_map.mp hs
  exact hp x (List.mem_of_mem_filter hx)

theorem load_le_append (hp : ∀ x ∈ l₁ ++ l₂, 0 ≤ p x) :
    load f p l₁ c ≤ load f p (l₁ ++ l₂) c := by
  have hrest : 0 ≤ load f p l₂ c :=
    load_nonneg fun x hx => hp x (List.mem_append_right _ hx)
  rw [load_append]
  omega

theorem le_load (hp : ∀ x ∈ l, 0 ≤ p x) (hx : x ∈ l) : p x ≤ load f p l (f x) := by
  obtain ⟨l₁, l₂, rfl⟩ := List.append_of_mem hx
  have hfirst : 0 ≤ load f p l₁ (f x) :=
    load_nonneg fun y hy => hp y (List.mem_append_left _ hy)
  have hrest : 0 ≤ load f p l₂ (f x) :=
    load_nonneg fun y hy => hp y (List.mem_append_right _ (List.mem_cons_of_mem x hy))
  rw [load_append, load_cons, if_pos rfl]
  omega

/-- Each job goes to a machine that has the least load when its turn comes; `start` is what the
machines carry before. -/
def Greedy (machines : Finset κ) (start : κ → ℤ) (p : ι → ℤ) (f : ι → κ) (l : List ι) : Prop :=
  ∀ l₁ x l₂, l = l₁ ++ x :: l₂ → f x ∈ machines ∧
    ∀ d ∈ machines, start (f x) + load f p l₁ (f x) ≤ start d + load f p l₁ d

theorem greedy_nil {start : κ → ℤ} : Greedy machines start p f [] := by
  intro l₁ x l₂ h
  simp at h

theorem greedy_cons {start : κ → ℤ} (hmem : f x ∈ machines)
    (hleast : ∀ d ∈ machines, start (f x) ≤ start d)
    (hrest : Greedy machines (fun d => start d + if f x = d then p x else 0) p f l) :
    Greedy machines start p f (x :: l) := by
  intro l₁ y l₂ h
  cases l₁ with
  | nil =>
      obtain ⟨rfl, -⟩ := List.cons.inj h
      simpa using ⟨hmem, hleast⟩
  | cons z l₁ =>
      obtain ⟨rfl, hl⟩ := List.cons.inj h
      obtain ⟨hy, hleast'⟩ := hrest l₁ y l₂ hl
      refine ⟨hy, fun d hd => ?_⟩
      have hle := hleast' d hd
      dsimp only at hle
      rw [load_cons, load_cons]
      omega

theorem Greedy.mem {start : κ → ℤ} (h : Greedy machines start p f l) (hx : x ∈ l) :
    f x ∈ machines := by
  obtain ⟨l₁, l₂, hl⟩ := List.append_of_mem hx
  exact (h l₁ x l₂ hl).1

theorem Greedy.least (h : Greedy machines (fun _ => 0) p f l) (hl : l = l₁ ++ x :: l₂)
    (hd : d ∈ machines) : load f p l₁ (f x) ≤ load f p l₁ d := by
  simpa using (h l₁ x l₂ hl).2 d hd

/-! ## The last job of a machine -/

theorem exists_last (h : ∃ x ∈ l, f x = c) :
    ∃ l₁ x l₂, l = l₁ ++ x :: l₂ ∧ f x = c ∧ ∀ y ∈ l₂, f y ≠ c := by
  induction l with
  | nil =>
      obtain ⟨x, hx, -⟩ := h
      cases hx
  | cons y l ih =>
      by_cases hl : ∃ x ∈ l, f x = c
      · obtain ⟨l₁, x, l₂, rfl, hx, hlast⟩ := ih hl
        exact ⟨y :: l₁, x, l₂, rfl, hx, hlast⟩
      · push Not at hl
        obtain ⟨x, hx, hc⟩ := h
        rcases List.mem_cons.mp hx with rfl | hx
        · exact ⟨[], x, l, rfl, hc, hl⟩
        · exact absurd hc (hl x hx)

theorem last_le (hsorted : (l₁ ++ x :: l₂).Pairwise fun a b => p b ≤ p a) :
    ∀ y ∈ l₁, p x ≤ p y := by
  intro y hy
  exact (List.pairwise_append.mp hsorted).2.2 y hy x List.mem_cons_self

theorem load_last (hx : f x = c) (hlast : ∀ y ∈ l₂, f y ≠ c) :
    load f p (l₁ ++ x :: l₂) c = load f p l₁ c + p x := by
  rw [load_append, load_cons, if_pos hx, load_eq_zero hlast, add_zero]

/-- Without its smallest job a machine carries no more than any other. -/
theorem Greedy.balanced (h : Greedy machines (fun _ => 0) p f l)
    (hsorted : l.Pairwise fun a b => p b ≤ p a) (hp : ∀ x ∈ l, 0 ≤ p x)
    (hx : x ∈ l) (hleast : ∀ y ∈ l, f y = f x → p x ≤ p y) (hd : d ∈ machines) :
    load f p l (f x) - p x ≤ load f p l d := by
  obtain ⟨l₁, y, l₂, rfl, hy, hlast⟩ := exists_last (f := f) ⟨x, hx, rfl⟩
  have hturn := h.least rfl hd
  have hgrows : load f p l₁ d ≤ load f p (l₁ ++ y :: l₂) d := load_le_append hp
  have hsmall : p x ≤ p y := hleast y (by simp) hy
  -- the job to take away is as small as the last one, which the machine got when it had least
  have hsame : p y ≤ p x := by
    rcases List.mem_append.mp hx with hx | hx
    · exact last_le hsorted x hx
    · rcases List.mem_cons.mp hx with rfl | hx
      · exact le_rfl
      · exact absurd rfl (hlast x hx)
  rw [hy] at hturn
  rw [load_last hy hlast]
  omega

/-! ## The bound -/

/-- Every machine has a share of the least load, so the last job of a machine comes on top of an
average. -/
theorem Greedy.average (h : Greedy machines (fun _ => 0) p f l) (hl : l = l₁ ++ x :: l₂) :
    (machines.card : ℤ) * load f p l₁ (f x) ≤ (l₁.map p).sum := by
  have hmem : ∀ y ∈ l₁, f y ∈ machines := fun y hy => h.mem (by simp [hl, hy])
  rw [← sum_load hmem, ← nsmul_eq_mul]
  apply Finset.card_nsmul_le_sum
  intro d hd
  exact h.least hl hd

theorem sum_le_of_load_le (hg : ∀ x ∈ l, g x ∈ machines) (hopt : ∀ c ∈ machines, load g p l c ≤ opt) :
    (l.map p).sum ≤ machines.card * opt := by
  rw [← sum_load hg, ← nsmul_eq_mul]
  exact Finset.sum_le_card_nsmul _ _ _ hopt

/-- A job that leaves no room for a job of the size `q` counts twice. -/
def weight (p : ι → ℤ) (opt q : ℤ) (x : ι) : ℕ :=
  if opt < p x + q then 2 else 1

theorem one_le_weight {q : ℤ} : 1 ≤ weight p opt q x := by
  unfold weight
  split <;> omega

/-- A machine that has no room for one more job weighs at least two. -/
theorem two_le_weight {q : ℤ} (hq : q ≤ opt) (h : opt < (l.map p).sum + q) :
    2 ≤ (l.map (weight p opt q)).sum := by
  match l with
  | [] => simp at h; omega
  | [x] =>
      have hbig : opt < p x + q := by simpa using h
      simp [weight, hbig]
  | x :: y :: l =>
      have hx : 1 ≤ weight p opt q x := one_le_weight
      have hy : 1 ≤ weight p opt q y := one_le_weight
      simp only [List.map_cons, List.sum_cons]
      omega

/-- A machine within the bound weighs at most two, when three jobs never fit. -/
theorem weight_le_two {q : ℤ} (hsmall : ∀ x ∈ l, q ≤ p x) (hq : opt < 3 * q)
    (hpos : 0 ≤ q) (h : (l.map p).sum ≤ opt) : (l.map (weight p opt q)).sum ≤ 2 := by
  match l with
  | [] => simp
  | [x] =>
      simp only [List.map_cons, List.map_nil, List.sum_cons, List.sum_nil, weight]
      split <;> omega
  | [x, y] =>
      have hx : q ≤ p x := hsmall x (by simp)
      have hy : q ≤ p y := hsmall y (by simp)
      have hsum : p x + p y ≤ opt := by simpa using h
      have hx' : ¬ opt < p x + q := by omega
      have hy' : ¬ opt < p y + q := by omega
      simp [weight, hx', hy']
  | x :: y :: z :: l =>
      have hx : q ≤ p x := hsmall x (by simp)
      have hy : q ≤ p y := hsmall y (by simp)
      have hz : q ≤ p z := hsmall z (by simp)
      have hrest : 0 ≤ (l.map p).sum := by
        apply List.sum_nonneg
        intro s hs
        obtain ⟨w, hw, rfl⟩ := List.mem_map.mp hs
        exact hpos.trans (hsmall w (by simp [hw]))
      simp only [List.map_cons, List.sum_cons] at h
      omega

/-- When the last job is more than a third of the bound the schedule is within the bound: no
assignment within the bound has room for as many jobs as the machines would hold. -/
theorem Greedy.le_of_big (h : Greedy machines (fun _ => 0) p f l) (hl : l = l₁ ++ x :: l₂)
    (hsmall : ∀ y ∈ l₁, p x ≤ p y) (hpos : 0 ≤ p x) (hbig : opt < 3 * p x)
    (hg : ∀ y ∈ l₁ ++ [x], g y ∈ machines) (hopt : ∀ c ∈ machines, load g p (l₁ ++ [x]) c ≤ opt) :
    load f p l₁ (f x) + p x ≤ opt := by
  by_contra hover
  push Not at hover
  have hp : ∀ y ∈ l₁ ++ [x], p x ≤ p y := by
    intro y hy
    rcases List.mem_append.mp hy with hy | hy
    · exact hsmall y hy
    · rw [List.mem_singleton.mp hy]
  have hfits : p x ≤ opt := by
    have hx : x ∈ l₁ ++ [x] := by simp
    exact (le_load (fun y hy => hpos.trans (hp y hy)) hx).trans (hopt _ (hg x hx))
  have hfull : ∀ d ∈ machines, 2 ≤ load f (weight p opt (p x)) l₁ d := by
    intro d hd
    have hleast := h.least hl hd
    apply two_le_weight hfits
    change opt < load f p l₁ d + p x
    omega
  have hroom : ∀ d ∈ machines, load g (weight p opt (p x)) (l₁ ++ [x]) d ≤ 2 := by
    intro d hd
    apply weight_le_two _ hbig hpos (hopt d hd)
    intro y hy
    exact hp y (List.mem_of_mem_filter hy)
  have hmem : ∀ y ∈ l₁, f y ∈ machines := fun y hy => h.mem (by simp [hl, hy])
  have hlow : machines.card * 2 ≤ (l₁.map (weight p opt (p x))).sum := by
    rw [← sum_load hmem, ← smul_eq_mul]
    exact Finset.card_nsmul_le_sum _ _ _ hfull
  have hhigh : ((l₁ ++ [x]).map (weight p opt (p x))).sum ≤ machines.card * 2 := by
    rw [← sum_load hg, ← smul_eq_mul]
    exact Finset.sum_le_card_nsmul _ _ _ hroom
  have hone : 1 ≤ weight p opt (p x) x := one_le_weight
  rw [List.map_append, List.sum_append, List.map_singleton, List.sum_singleton] at hhigh
  omega

/-- Descending list scheduling is within `4/3 - 1/(3m)` of every assignment. -/
theorem Greedy.le_four_thirds (h : Greedy machines (fun _ => 0) p f l)
    (hsorted : l.Pairwise fun a b => p b ≤ p a) (hp : ∀ x ∈ l, 0 ≤ p x)
    (hg : ∀ x ∈ l, g x ∈ machines) (hopt : ∀ d ∈ machines, load g p l d ≤ opt)
    (hc : c ∈ machines) :
    3 * (machines.card : ℤ) * load f p l c ≤ (4 * machines.card - 1) * opt := by
  have hcard : (1 : ℤ) ≤ machines.card := by
    exact_mod_cast Finset.card_pos.mpr ⟨c, hc⟩
  have hopt0 : 0 ≤ opt := (load_nonneg hp).trans (hopt c hc)
  by_cases hjobs : ∃ x ∈ l, f x = c
  case neg =>
    push Not at hjobs
    rw [load_eq_zero hjobs, mul_zero]
    exact mul_nonneg (by omega) hopt0
  obtain ⟨l₁, x, l₂, hl, rfl, hlast⟩ := exists_last hjobs
  have hfirst : ∀ y ∈ l₁ ++ [x], y ∈ l := by
    intro y hy
    rw [hl]
    simp only [List.mem_append, List.mem_cons, List.not_mem_nil, or_false] at hy ⊢
    tauto
  have hg' : ∀ y ∈ l₁ ++ [x], g y ∈ machines := fun y hy => hg y (hfirst y hy)
  have hopt' : ∀ d ∈ machines, load g p (l₁ ++ [x]) d ≤ opt := by
    intro d hd
    refine le_trans ?_ (hopt d hd)
    have hsplit : l = (l₁ ++ [x]) ++ l₂ := by rw [hl]; simp
    rw [hsplit] at hp ⊢
    exact load_le_append hp
  have hpos : 0 ≤ p x := hp x (hfirst x (by simp))
  have hsmall : ∀ y ∈ l₁, p x ≤ p y := last_le (hl ▸ hsorted)
  rw [hl, load_last rfl hlast]
  by_cases hbig : opt < 3 * p x
  · have hwithin := h.le_of_big hl hsmall hpos hbig hg' hopt'
    nlinarith only [hwithin, hcard, hopt0]
  · have haverage := h.average hl
    have htotal := sum_le_of_load_le hg' hopt'
    rw [List.map_append, List.sum_append, List.map_singleton, List.sum_singleton] at htotal
    have hrest : ((machines.card : ℤ) - 1) * (3 * p x) ≤ (machines.card - 1) * opt :=
      mul_le_mul_of_nonneg_left (by omega) (by omega)
    linarith only [haverage, htotal, hrest]

end Sizes

end CloudComputing.Lib
