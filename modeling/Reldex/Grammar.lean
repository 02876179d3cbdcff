import Mathlib.Computability.Language

/-! Context-free derivations against a machine that reads terminals. A nonterminal has
a pre- and a postcondition on the machine's state. When every production respects them,
so does every sentential form, and a nonterminal left in a form marks a place: the
machine reaches it in its precondition. -/

namespace Grammar
variable {T N σ : Type}

/-- `Yields rules form out`: some nonterminals of `form` are expanded, to any depth. -/
inductive Yields (rules : N → List (Symbol T N) → Prop) : List (Symbol T N) → List (Symbol T N) → Prop where
  | nil : Yields rules [] []
  | keep (s : Symbol T N) : Yields rules rest out → Yields rules (s :: rest) (s :: out)
  | expand : rules n rhs → Yields rules rhs a → Yields rules rest b →
      Yields rules (.nonterminal n :: rest) (a ++ b)

theorem Yields.refl (rules : N → List (Symbol T N) → Prop) (form : List (Symbol T N)) : Yields rules form form := by
  induction form with
  | nil => exact .nil
  | cons s form ih => exact .keep s ih

theorem Yields.append (first : Yields rules a x) (second : Yields rules b y) : Yields rules (a ++ b) (x ++ y) := by
  induction first with
  | nil => exact second
  | keep s _ ih => exact .keep s ih
  | expand rule inner _ _ ih =>
    rw [List.append_assoc]
    exact .expand rule inner ih

theorem Yields.split
    (yields : Yields rules (a ++ b) out) : ∃ x y, out = x ++ y ∧ Yields rules a x ∧ Yields rules b y := by
  induction a generalizing out with
  | nil => exact ⟨[],out,rfl,.nil,yields⟩
  | cons s a ih =>
    cases yields with
    | keep _ later =>
      obtain ⟨x,y,rfl,first,second⟩ := ih later
      exact ⟨s :: x,y,rfl,.keep s first,second⟩
    | expand rule inner later =>
      obtain ⟨x,y,rfl,first,second⟩ := ih later
      exact ⟨_,y,(List.append_assoc ..).symm,.expand rule inner first,second⟩

theorem Yields.trans (first : Yields rules form middle) (second : Yields rules middle out) : Yields rules form out := by
  induction first generalizing out with
  | nil => exact second
  | keep s _ ih =>
    cases second with
    | keep _ later => exact .keep s (ih later)
    | expand rule inner later => exact .expand rule inner (ih later)
  | expand rule _ _ inner rest =>
    obtain ⟨x,y,rfl,left,right⟩ := second.split
    exact .expand rule (inner left) (rest right)

theorem Yields.fill
    (place : Yields rules form (before ++ .nonterminal n :: after)) (filled : Yields rules [.nonterminal n] out) :
    Yields rules form (before ++ out ++ after) := by
  refine place.trans ?_
  rw [List.append_assoc]
  exact (Yields.refl rules before).append (filled.append (Yields.refl rules after))

variable (step : σ → T → σ → Prop) (pre : N → σ → Prop) (post : N → σ → σ → Prop)

def wp : List (Symbol T N) → (σ → Prop) → σ → Prop
  | [], goal, s => goal s
  | .terminal x :: rest, goal, s => ∃ t, step s x t ∧ wp rest goal t
  | .nonterminal n :: rest, goal, s => pre n s ∧ ∀ t, post n s t → wp rest goal t

variable {step pre post}

@[simp] theorem wp_nil : wp step pre post [] goal s ↔ goal s := Iff.rfl

@[simp] theorem wp_terminal : wp step pre post (.terminal x :: rest) goal s ↔
    ∃ t, step s x t ∧ wp step pre post rest goal t := Iff.rfl

@[simp] theorem wp_nonterminal : wp step pre post (.nonterminal n :: rest) goal s ↔
    pre n s ∧ ∀ t, post n s t → wp step pre post rest goal t := Iff.rfl

theorem wp_append (a b : List (Symbol T N)) :
    wp step pre post (a ++ b) goal s ↔ wp step pre post a (wp step pre post b goal) s := by
  induction a generalizing s with
  | nil => rfl
  | cons x a ih => cases x <;> simp [ih]

theorem wp_mono (weaker : ∀ s, goal s → goal' s) (holds : wp step pre post form goal s) :
    wp step pre post form goal' s := by
  induction form generalizing s with
  | nil => exact weaker s holds
  | cons x form ih =>
    cases x with
    | terminal x =>
      obtain ⟨t,moved,later⟩ := holds
      exact ⟨t,moved,ih later⟩
    | nonterminal n => exact ⟨holds.1,fun t moved => ih (holds.2 t moved)⟩

def Respects (rules : N → List (Symbol T N) → Prop) (step : σ → T → σ → Prop) (pre : N → σ → Prop)
    (post : N → σ → σ → Prop) : Prop :=
  ∀ n rhs s, rules n rhs → pre n s → wp step pre post rhs (post n s) s

theorem Yields.wp (respects : Respects rules step pre post)
    (yields : Yields rules form out) (holds : Grammar.wp step pre post form goal s) :
    Grammar.wp step pre post out goal s := by
  induction yields generalizing s goal with
  | nil => exact holds
  | keep x _ ih =>
    cases x with
    | terminal x =>
      obtain ⟨t,moved,later⟩ := holds
      exact ⟨t,moved,ih later⟩
    | nonterminal n => exact ⟨holds.1,fun t moved => ih (holds.2 t moved)⟩
  | expand rule _ _ inner rest =>
    rw [wp_append]
    exact wp_mono (fun t moved => rest (holds.2 t moved)) (inner (respects _ _ _ rule holds.1))

inductive Runs (step : σ → T → σ → Prop) : σ → List T → σ → Prop where
  | nil : Runs step s [] s
  | cons : step s x t → Runs step t xs u → Runs step s (x :: xs) u

theorem wp_terminals (xs : List T) : wp step pre post (xs.map .terminal) goal s ↔ ∃ t, Runs step s xs t ∧ goal t := by
  induction xs generalizing s with
  | nil =>
    constructor
    · exact fun holds => ⟨s,.nil,holds⟩
    · rintro ⟨t,⟨⟩,holds⟩
      exact holds
  | cons x xs ih =>
    constructor
    · rintro ⟨t,moved,later⟩
      obtain ⟨u,runs,holds⟩ := ih.mp later
      exact ⟨u,.cons moved runs,holds⟩
    · rintro ⟨u,runs,holds⟩
      cases runs with
      | cons moved runs => exact ⟨_,moved,ih.mpr ⟨u,runs,holds⟩⟩

/-- A place in a form: the machine reads up to it, stands in the precondition of the
missing nonterminal, and reads on from whatever fills it. -/
theorem wp_place (before after : List T) (n : N) :
    wp step pre post (before.map .terminal ++ .nonterminal n :: after.map .terminal) goal s ↔
      ∃ t, Runs step s before t ∧ pre n t ∧ ∀ u, post n t u → ∃ v, Runs step u after v ∧ goal v := by
  rw [wp_append,wp_terminals]
  simp only [wp_nonterminal,wp_terminals]

theorem Runs.append (first : Runs step s xs t) (second : Runs step t ys u) : Runs step s (xs ++ ys) u := by
  induction first with
  | nil => exact second
  | cons moved _ ih => exact .cons moved (ih second)

end Grammar
