import Mathlib.Logic.Basic
import Mathlib.Algebra.Order.Monoid.Defs

/-!
# Computations that may abort

A call of the modelled Go code that may panic or return an error is a function into
`Except ε α`, and a sequence of such calls is a `do` block in `Except ε`.  The lemmas here
take such a block apart: a block that returns `.ok` ran each of its steps to `.ok`
(`bind_eq_ok`), so a proof about a block peels its steps off one `obtain` at a time and
never unfolds the monad.
-/

namespace Except

universe u v

variable {ε ε' : Type u} {α β : Type v}

@[simp] theorem ok_bind (a : α) (f : α → Except ε β) : (Except.ok a >>= f) = f a := rfl

@[simp] theorem error_bind (e : ε) (f : α → Except ε β) : (Except.error e >>= f) = .error e :=
  rfl

@[simp] theorem pure_eq_ok (a : α) : (pure a : Except ε α) = .ok a := rfl

@[simp] theorem throw_eq_error (e : ε) : (throw e : Except ε α) = .error e := rfl

@[simp] theorem ok_inj {a b : α} : (Except.ok a : Except ε α) = .ok b ↔ a = b :=
  ⟨fun h => by cases h; rfl, fun h => h ▸ rfl⟩

@[simp] theorem error_ne_ok {e : ε} {a : α} : (Except.error e : Except ε α) ≠ .ok a :=
  fun h => by cases h

/-- The bind inversion: a chain that returns `.ok` ran its first step to `.ok`. -/
theorem bind_eq_ok {x : Except ε α} {f : α → Except ε β} {b : β} :
    (x >>= f) = .ok b ↔ ∃ a, x = .ok a ∧ f a = .ok b := by
  cases x <;> simp

/-- A mapped computation that returns `.ok` ran to `.ok`. -/
theorem map_eq_ok {x : Except ε α} {f : α → β} {b : β} :
    f <$> x = .ok b ↔ ∃ a, x = .ok a ∧ f a = b := by
  cases x <;> simp [Functor.map, Except.map]

/-- What is read off a computation that returned: a value it returned.  Facts about a
computation evaluated by `decide` come back this way. -/
theorem exists_of_toOption_map {x : Except ε α} {f : α → β} {b : β}
    (h : x.toOption.map f = some b) : ∃ a, x = .ok a ∧ f a = b := by
  cases x <;> simp_all [Except.toOption]

/-- A chain that aborts with `e` either aborted in its first step or later. -/
theorem bind_eq_error {x : Except ε α} {f : α → Except ε β} {e : ε} :
    (x >>= f) = .error e ↔ x = .error e ∨ ∃ a, x = .ok a ∧ f a = .error e := by
  cases x <;> simp

/-- A guard that aborts when its condition holds. -/
@[simp] theorem ite_error_eq_ok {p : Prop} [Decidable p] {e : ε} {x : Except ε α} {a : α} :
    (if p then .error e else x) = .ok a ↔ ¬p ∧ x = .ok a := by
  by_cases hp : p <;> simp [hp]

/-- The loop rule: a property kept by every step of a `foldlM` that returns `.ok` holds at
its end.  Each step may use that its element is one of the list's. -/
theorem foldlM_invariant {f : β → α → Except ε β} (P : β → Prop) :
    ∀ (l : List α), (∀ b a b', a ∈ l → P b → f b a = .ok b' → P b') →
      ∀ (b b' : β), P b → l.foldlM f b = .ok b' → P b'
  | [], _, b, b', hb, h => by simp only [List.foldlM_nil, pure_eq_ok, ok_inj] at h; exact h ▸ hb
  | a :: l, hstep, b, b', hb, h => by
    rw [List.foldlM_cons, bind_eq_ok] at h
    obtain ⟨b₁, h₁, h₂⟩ := h
    have hb₁ : P b₁ := hstep b a b₁ List.mem_cons_self hb h₁
    exact foldlM_invariant P l (fun c x c' hx => hstep c x c' (List.mem_cons_of_mem a hx)) b₁ b'
      hb₁ h₂

/-- The loop rule with the rest of the list: a property of the accumulator and of the
elements still to come, kept by every step, holds at the end of a `foldlM` that returns. -/
theorem foldlM_invariant_rest {f : β → α → Except ε β} (P : List α → β → Prop)
    (hstep : ∀ a l b b', P (a :: l) b → f b a = .ok b' → P l b') :
    ∀ (l : List α) (b b' : β), P l b → l.foldlM f b = .ok b' → P [] b'
  | [], b, b', hb, h => by simp only [List.foldlM_nil, pure_eq_ok, ok_inj] at h; exact h ▸ hb
  | a :: l, b, b', hb, h => by
    rw [List.foldlM_cons, bind_eq_ok] at h
    obtain ⟨b₁, h₁, h₂⟩ := h
    exact foldlM_invariant_rest P hstep l b₁ b' (hstep a l b b₁ hb h₁) h₂

/-- The loop rule with the elements done: a property of the elements taken so far and of the
accumulator, kept by every step, holds at the end of a `foldlM` that returns. -/
theorem foldlM_invariant_done {f : β → α → Except ε β} (P : List α → β → Prop)
    (hstep : ∀ l a b b', P l b → f b a = .ok b' → P (l ++ [a]) b') :
    ∀ (l₀ l : List α) (b b' : β), P l₀ b → l.foldlM f b = .ok b' → P (l₀ ++ l) b'
  | l₀, [], b, b', hb, h => by
    simp only [List.foldlM_nil, pure_eq_ok, ok_inj] at h
    rw [List.append_nil]
    exact h ▸ hb
  | l₀, a :: l, b, b', hb, h => by
    rw [List.foldlM_cons, bind_eq_ok] at h
    obtain ⟨b₁, h₁, h₂⟩ := h
    have hend := foldlM_invariant_done P hstep (l₀ ++ [a]) l b₁ b' (hstep l₀ a b b₁ hb h₁) h₂
    rwa [List.append_assoc, List.singleton_append] at hend

/-- The potential rule: a quantity that each step, from an accumulator with the property `I`,
raises by at most the weight of its element is raised by at most the total weight of the
list, and `I` holds at the end. -/
theorem foldlM_potential {M : Type*} [AddCommMonoid M] [PartialOrder M] [IsOrderedAddMonoid M]
    {f : β → α → Except ε β} (I : β → Prop) (φ : β → M) (w : α → M) :
    ∀ (l : List α), (∀ b a b', a ∈ l → I b → f b a = .ok b' → I b' ∧ φ b' ≤ φ b + w a) →
      ∀ (b b' : β), I b → l.foldlM f b = .ok b' → I b' ∧ φ b' ≤ φ b + (l.map w).sum
  | [], _, b, b', hb, h => by
    simp only [List.foldlM_nil, pure_eq_ok, ok_inj] at h
    subst h
    simp [hb]
  | a :: l, hstep, b, b', hb, h => by
    rw [List.foldlM_cons, bind_eq_ok] at h
    obtain ⟨b₁, h₁, h₂⟩ := h
    obtain ⟨hb₁, hφ₁⟩ := hstep b a b₁ List.mem_cons_self hb h₁
    obtain ⟨hb', hφ'⟩ := foldlM_potential I φ w l
      (fun c x c' hx => hstep c x c' (List.mem_cons_of_mem a hx)) b₁ b' hb₁ h₂
    refine ⟨hb', ?_⟩
    calc φ b' ≤ φ b₁ + (l.map w).sum := hφ'
      _ ≤ φ b + w a + (l.map w).sum := add_le_add_left hφ₁ _
      _ = φ b + ((a :: l).map w).sum := by rw [List.map_cons, List.sum_cons, add_assoc]

/-- The progress rule: a `foldlM` whose every step, from an accumulator with the property,
returns and keeps it, returns. -/
theorem foldlM_ok {f : β → α → Except ε β} (P : List α → β → Prop)
    (hstep : ∀ a l b, P (a :: l) b → ∃ b', f b a = .ok b' ∧ P l b') :
    ∀ (l : List α) (b : β), P l b → ∃ b', l.foldlM f b = .ok b' ∧ P [] b'
  | [], b, hb => ⟨b, rfl, hb⟩
  | a :: l, b, hb => by
    obtain ⟨b₁, h₁, hb₁⟩ := hstep a l b hb
    obtain ⟨b', h, hb'⟩ := foldlM_ok P hstep l b₁ hb₁
    refine ⟨b', ?_, hb'⟩
    rw [List.foldlM_cons, h₁]
    exact h

/-- A `foldlM` whose every step returns is the plain `foldl` of what the steps return. -/
theorem foldlM_pure {f : β → α → Except ε β} {g : β → α → β} (h : ∀ b a, f b a = .ok (g b a)) :
    ∀ (l : List α) (b : β), l.foldlM f b = .ok (l.foldl g b)
  | [], _ => rfl
  | a :: l, b => by rw [List.foldlM_cons, h, ok_bind, List.foldl_cons, foldlM_pure h l]

/-- A `mapM` that returns `.ok` returns one value for each element. -/
theorem length_of_mapM_eq_ok {f : α → Except ε β} :
    ∀ {l : List α} {bs : List β}, l.mapM f = .ok bs → bs.length = l.length
  | [], bs, h => by simp only [List.mapM_nil, pure_eq_ok, ok_inj] at h; simp [← h]
  | a :: l, bs, h => by
    rw [List.mapM_cons, bind_eq_ok] at h
    obtain ⟨b, -, h⟩ := h
    rw [bind_eq_ok] at h
    obtain ⟨bs', hbs', h⟩ := h
    simp only [pure_eq_ok, ok_inj] at h
    simp [← h, length_of_mapM_eq_ok hbs']

/-- A `mapM` over the images of a list under `t`, whose function undoes `t`, returns the list. -/
theorem mapM_map_eq_ok {f : α → Except ε β} {t : β → α} :
    ∀ {l : List β}, (∀ b ∈ l, f (t b) = .ok b) → (l.map t).mapM f = .ok l
  | [], _ => rfl
  | b :: l, h => by
    rw [List.map_cons, List.mapM_cons, h b List.mem_cons_self, ok_bind,
      mapM_map_eq_ok fun c hc => h c (List.mem_cons_of_mem b hc)]
    rfl

/-- A `mapM` whose function returns `g a` whenever it returns returns the images under `g`. -/
theorem eq_map_of_mapM_eq_ok {f : α → Except ε β} {g : α → β} (hf : ∀ a b, f a = .ok b → b = g a) :
    ∀ {l : List α} {bs : List β}, l.mapM f = .ok bs → bs = l.map g
  | [], bs, h => by
    simp only [List.mapM_nil, pure_eq_ok, ok_inj] at h
    simp [← h]
  | a :: l, bs, h => by
    rw [List.mapM_cons, bind_eq_ok] at h
    obtain ⟨b, hb, h⟩ := h
    rw [bind_eq_ok] at h
    obtain ⟨bs', hbs', h⟩ := h
    simp only [pure_eq_ok, ok_inj] at h
    rw [← h, hf a b hb, eq_map_of_mapM_eq_ok hf hbs', List.map_cons]

/-- Every value a `mapM` that returned `.ok` holds was returned for an element. -/
theorem mem_of_mapM_eq_ok {f : α → Except ε β} :
    ∀ {l : List α} {bs : List β}, l.mapM f = .ok bs → ∀ b ∈ bs, ∃ a ∈ l, f a = .ok b
  | [], bs, h => by
    simp only [List.mapM_nil, pure_eq_ok, ok_inj] at h
    simp [← h]
  | a :: l, bs, h => by
    rw [List.mapM_cons, bind_eq_ok] at h
    obtain ⟨b₀, hb₀, h⟩ := h
    rw [bind_eq_ok] at h
    obtain ⟨bs', hbs', h⟩ := h
    simp only [pure_eq_ok, ok_inj] at h
    intro b hb
    rw [← h, List.mem_cons] at hb
    rcases hb with rfl | hb
    · exact ⟨a, List.mem_cons_self, hb₀⟩
    · obtain ⟨a', ha', hfa'⟩ := mem_of_mapM_eq_ok hbs' b hb
      exact ⟨a', List.mem_cons_of_mem a ha', hfa'⟩

@[simp] theorem mapError_ok (f : ε → ε') (a : α) :
    (Except.ok a : Except ε α).mapError f = .ok a := rfl

theorem mapError_eq_ok {f : ε → ε'} {x : Except ε α} {a : α} :
    x.mapError f = .ok a ↔ x = .ok a := by
  cases x <;> simp [Except.mapError]

/-! ### Errors a computation cannot end with

`Avoids bad x`: whatever error `x` ends with, `bad` does not hold of it.  It is proved of a
`do` block one step at a time: `avoids_bind` splits a bind into its first step and the rest
after each value the first step can return. -/

/-- `x` does not end with an error of which `bad` holds. -/
def Avoids (bad : ε → Prop) (x : Except ε α) : Prop := ∀ e, x = .error e → ¬ bad e

section Avoids

variable {bad : ε → Prop}

@[simp] theorem avoids_ok (a : α) : Avoids bad (Except.ok a : Except ε α) := fun _ h => by cases h

@[simp] theorem avoids_pure (a : α) : Avoids bad (pure a : Except ε α) := avoids_ok a

@[simp] theorem avoids_error {e : ε} : Avoids bad (Except.error e : Except ε α) ↔ ¬ bad e :=
  ⟨fun h => h e rfl, fun h _ he => by cases he; exact h⟩

@[simp] theorem avoids_throw {e : ε} : Avoids bad (throw e : Except ε α) ↔ ¬ bad e :=
  avoids_error

theorem Avoids.of_eq_ok {x : Except ε α} {a : α} (h : x = .ok a) : Avoids bad x :=
  h ▸ avoids_ok a

/-- The bind rule: a chain avoids `bad` when its first step does, and the rest does after
every value the first step returns. -/
theorem avoids_bind {x : Except ε α} {f : α → Except ε β} :
    Avoids bad (x >>= f) ↔ Avoids bad x ∧ ∀ a, x = .ok a → Avoids bad (f a) := by
  cases x with
  | error e => simp
  | ok a => simp

/-- The guard rule: a branch avoids `bad` when the branch taken does. -/
theorem avoids_ite {p : Prop} [Decidable p] {x y : Except ε α} :
    Avoids bad (if p then x else y) ↔ (p → Avoids bad x) ∧ (¬ p → Avoids bad y) := by
  by_cases hp : p <;> simp [hp]

theorem avoids_map {x : Except ε α} {f : α → β} : Avoids bad (f <$> x) ↔ Avoids bad x := by
  cases x <;> simp [Functor.map, Except.map]

/-- The loop rule for `Avoids`: with an invariant of the accumulator that every step keeps,
a `foldlM` avoids `bad` when every step does. -/
theorem avoids_foldlM {f : β → α → Except ε β} (P : β → Prop) :
    ∀ (l : List α), (∀ b a, a ∈ l → P b → Avoids bad (f b a) ∧ ∀ b', f b a = .ok b' → P b') →
      ∀ (b : β), P b → Avoids bad (l.foldlM f b)
  | [], _, b, _ => by simp
  | a :: l, hstep, b, hb => by
    rw [List.foldlM_cons, avoids_bind]
    obtain ⟨hx, hP⟩ := hstep b a List.mem_cons_self hb
    exact ⟨hx, fun b₁ h₁ => avoids_foldlM P l
      (fun c y hy => hstep c y (List.mem_cons_of_mem a hy)) b₁ (hP b₁ h₁)⟩

end Avoids

end Except
