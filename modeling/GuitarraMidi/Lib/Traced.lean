import Mathlib.Data.List.Basic
import Mathlib.Data.List.Induction

/-!
# `Lib.Traced` — programs that leave a trace

A driver is judged by what it does to the outside, in which order: a trace of actions. What may be asked of a trace is
said of each action and what came before it (`Lawful`), mostly in the form that one thing has been so since another was
(`Since`).

`Prog` is a program that reads and changes an environment and leaves a trace. Its triples say that from a state and a
history in which the precondition holds every action is lawful, and that the postcondition holds at the end; a client
proves them with one rule for each way of putting programs together.
-/

namespace Traced

variable {ε α β γ : Type}

/-! ## Histories -/

/-- `p` holds of everything that came after the last thing for which `q` does, and there is one. -/
def Since (p q : α → Prop) (h : List α) : Prop := ∃ pre a post, h = pre ++ a :: post ∧ q a ∧ ∀ b ∈ post, p b

theorem since_concat {p q : α → Prop} {h : List α} {a : α} : Since p q (h ++ [a]) ↔ q a ∨ p a ∧ Since p q h := by
  constructor
  · rintro ⟨pre, b, post, hsplit, hb, hpost⟩
    rcases List.eq_nil_or_concat' post with rfl | ⟨post, c, rfl⟩
    · obtain rfl : a = b := List.singleton_inj.mp (List.append_inj' hsplit rfl).2
      exact Or.inl hb
    · rw [← List.cons_append, ← List.append_assoc] at hsplit
      obtain ⟨rfl, hc⟩ := List.append_inj' hsplit rfl
      obtain rfl : a = c := List.singleton_inj.mp hc
      exact Or.inr ⟨hpost a (List.mem_append_right post List.mem_cons_self), pre, b, post, rfl, hb,
        fun d hd => hpost d (List.mem_append_left _ hd)⟩
  · rintro (ha | ⟨ha, pre, b, post, rfl, hb, hpost⟩)
    · exact ⟨h, a, [], rfl, ha, fun b hb => absurd hb List.not_mem_nil⟩
    · refine ⟨pre, b, post ++ [a], by rw [List.append_assoc, List.cons_append], hb, ?_⟩
      intro c hc
      rcases List.mem_append.mp hc with hc | hc
      · exact hpost c hc
      · exact (List.mem_singleton.mp hc) ▸ ha

/-- After the history `h`, each action of the trace is allowed by `law` after what came before it. -/
def Lawful (law : List α → α → Prop) (h tr : List α) : Prop :=
  ∀ pre a post, tr = pre ++ a :: post → law (h ++ pre) a

variable {law : List α → α → Prop} {h : List α}

theorem lawful_nil : Lawful law h [] :=
  fun pre a post hnil => absurd hnil.symm (List.append_ne_nil_of_right_ne_nil pre (List.cons_ne_nil a post))

theorem lawful_singleton {a : α} (ha : law h a) : Lawful law h [a] := by
  intro pre b post hsplit
  cases pre with
  | nil =>
      obtain ⟨rfl, -⟩ := List.cons.inj hsplit
      rwa [List.append_nil]
  | cons c pre =>
      exact absurd (List.cons.inj hsplit).2.symm (List.append_ne_nil_of_right_ne_nil pre (List.cons_ne_nil b post))

theorem Lawful.append {tr tr' : List α} (htr : Lawful law h tr) (htr' : Lawful law (h ++ tr) tr') :
    Lawful law h (tr ++ tr') := by
  intro pre a post hsplit
  rcases List.append_eq_append_iff.mp hsplit with ⟨mid, rfl, hmid⟩ | ⟨mid, rfl, hmid⟩
  · rw [← List.append_assoc]
    exact htr' mid a post hmid
  · cases mid with
    | nil =>
        have ha := htr' [] a post hmid.symm
        rwa [List.append_nil, List.append_nil] at ha
    | cons b mid =>
        obtain ⟨rfl, -⟩ := List.cons.inj hmid
        exact htr pre a mid rfl

/-! ## Programs -/

/-- A program returns a value, changes the environment and leaves a trace, if it comes to an end. -/
def Prog (ε α β : Type) : Type := ε → Option (β × ε × List α)

instance : Monad (Prog ε α) where
  pure b := fun e => some (b, e, [])
  bind x f := fun e => (x e).bind (fun (b, e, tr) => (f b e).map (fun (c, e, tr') => (c, e, tr ++ tr')))

/-- One action. -/
def act (a : α) : Prog ε α Unit := fun e => some ((), e, [a])

/-- `while (cond) body`, for no more than `n` rounds. -/
def whileLoop (cond : Prog ε α Bool) (body : Prog ε α Unit) : Nat → Prog ε α Unit
  | 0 => fun _ => none
  | n + 1 => do
      if ← cond then
        body
        whileLoop cond body n

theorem pure_eq_some {b b' : β} {e e' : ε} {tr : List α} :
    (pure b : Prog ε α β) e = some (b', e', tr) ↔ b = b' ∧ e = e' ∧ [] = tr := by
  show some (b, e, []) = some (b', e', tr) ↔ _
  rw [Option.some_inj, Prod.mk.injEq, Prod.mk.injEq]

theorem bind_eq_some {x : Prog ε α β} {f : β → Prog ε α γ} {e e' : ε} {c : γ} {tr : List α} :
    (x >>= f) e = some (c, e', tr) ↔
      ∃ b e₁ tr₁ tr₂, x e = some (b, e₁, tr₁) ∧ f b e₁ = some (c, e', tr₂) ∧ tr = tr₁ ++ tr₂ := by
  show (x e).bind _ = _ ↔ _
  rw [Option.bind_eq_some_iff]
  constructor
  · rintro ⟨⟨b, e₁, tr₁⟩, hx, hf⟩
    obtain ⟨⟨c, e', tr₂⟩, hrest, ⟨⟩⟩ := Option.map_eq_some_iff.mp hf
    exact ⟨b, e₁, tr₁, tr₂, hx, hrest, rfl⟩
  · rintro ⟨b, e₁, tr₁, tr₂, hx, hf, rfl⟩
    exact ⟨(b, e₁, tr₁), hx, Option.map_eq_some_iff.mpr ⟨(c, e', tr₂), hf, rfl⟩⟩

/-- What two lists of programs do one after the other. -/
theorem forM_append_eq_some {ι : Type} {f : ι → Prog ε α Unit} {xs ys : List ι} {e e' : ε} {tr : List α} :
    (xs ++ ys).forM f e = some ((), e', tr) ↔
      ∃ e₁ tr₁ tr₂, xs.forM f e = some ((), e₁, tr₁) ∧ ys.forM f e₁ = some ((), e', tr₂) ∧ tr = tr₁ ++ tr₂ := by
  induction xs generalizing e tr with
  | nil =>
      constructor
      · intro h
        exact ⟨e, [], tr, rfl, h, rfl⟩
      · rintro ⟨e₁, tr₁, tr₂, hxs, hys, rfl⟩
        obtain ⟨-, rfl, rfl⟩ := pure_eq_some.mp hxs
        exact hys
  | cons x xs ih =>
      show (f x >>= fun _ => (xs ++ ys).forM f) e = _ ↔ ∃ e₁ tr₁ tr₂, (f x >>= fun _ => xs.forM f) e = _ ∧ _
      constructor
      · intro h
        obtain ⟨⟨⟩, e₁, tr₁, tr', hx, hrest, rfl⟩ := bind_eq_some.mp h
        obtain ⟨e₂, tr₂, tr₃, hxs, hys, rfl⟩ := ih.mp hrest
        exact ⟨e₂, tr₁ ++ tr₂, tr₃, bind_eq_some.mpr ⟨(), e₁, tr₁, tr₂, hx, hxs, rfl⟩, hys,
          (List.append_assoc tr₁ tr₂ tr₃).symm⟩
      · rintro ⟨e₂, tr', tr₃, h, hys, rfl⟩
        obtain ⟨⟨⟩, e₁, tr₁, tr₂, hx, hxs, rfl⟩ := bind_eq_some.mp h
        exact bind_eq_some.mpr ⟨(), e₁, tr₁, tr₂ ++ tr₃, hx, ih.mpr ⟨e₂, tr₂, tr₃, hxs, hys, rfl⟩,
          List.append_assoc tr₁ tr₂ tr₃⟩

/-- The program comes to an end, with a value and an environment. -/
def Returns (x : Prog ε α β) (e : ε) (b : β) (e' : ε) : Prop := ∃ tr, x e = some (b, e', tr)

theorem returns_pure (b : β) (e : ε) : Returns (pure b : Prog ε α β) e b e := ⟨[], rfl⟩

theorem returns_bind {x : Prog ε α β} {f : β → Prog ε α γ} {e e₁ e' : ε} {b : β} {c : γ} (hx : Returns x e b e₁)
    (hf : Returns (f b) e₁ c e') : Returns (x >>= f) e c e' := by
  obtain ⟨tr₁, hx⟩ := hx
  obtain ⟨tr₂, hf⟩ := hf
  exact ⟨tr₁ ++ tr₂, bind_eq_some.mpr ⟨b, e₁, tr₁, tr₂, hx, hf, rfl⟩⟩

/-! ## Triples -/

/-- From an environment and a history in which `P` holds, `x` does nothing that is not lawful, and `Q` holds when it
    comes to an end. -/
def Triple (law : List α → α → Prop) (P : ε → List α → Prop) (x : Prog ε α β) (Q : β → ε → List α → Prop) : Prop :=
  ∀ e h b e' tr, P e h → x e = some (b, e', tr) → Lawful law h tr ∧ Q b e' (h ++ tr)

variable {P P' : ε → List α → Prop} {x : Prog ε α β} {Q Q' : β → ε → List α → Prop}

theorem Triple.weaken (hx : Triple law P' x Q') (hpre : ∀ e h, P e h → P' e h)
    (hpost : ∀ b e h, Q' b e h → Q b e h) : Triple law P x Q := by
  intro e h b e' tr hP hrun
  obtain ⟨hlaw, hQ⟩ := hx e h b e' tr (hpre e h hP) hrun
  exact ⟨hlaw, hpost b e' _ hQ⟩

/-- What the precondition says of values known beforehand may be assumed. -/
theorem triple_of_pre {φ : Prop} (hφ : ∀ e h, P e h → φ) (hx : φ → Triple law P x Q) : Triple law P x Q :=
  fun e h b e' tr hP hrun => hx (hφ e h hP) e h b e' tr hP hrun

theorem triple_pure {b : β} (hP : ∀ e h, P e h → Q b e h) : Triple law P (pure b) Q := by
  intro e h b' e' tr hpre hrun
  obtain ⟨rfl, rfl, rfl⟩ := pure_eq_some.mp hrun
  exact ⟨lawful_nil, (List.append_nil h).symm ▸ hP e h hpre⟩

theorem triple_bind {R : β → ε → List α → Prop} {f : β → Prog ε α γ} {Q : γ → ε → List α → Prop}
    (hx : Triple law P x R) (hf : ∀ b, Triple law (R b) (f b) Q) : Triple law P (x >>= f) Q := by
  intro e h c e' tr hP hrun
  obtain ⟨b, e₁, tr₁, tr₂, hxrun, hfrun, rfl⟩ := bind_eq_some.mp hrun
  obtain ⟨hlaw₁, hR⟩ := hx e h b e₁ tr₁ hP hxrun
  obtain ⟨hlaw₂, hQ⟩ := hf b e₁ (h ++ tr₁) c e' tr₂ hR hfrun
  exact ⟨hlaw₁.append hlaw₂, List.append_assoc h tr₁ tr₂ ▸ hQ⟩

theorem triple_act {a : α} {Q : Unit → ε → List α → Prop} (hlaw : ∀ e h, P e h → law h a)
    (hpost : ∀ e h, P e h → Q () e (h ++ [a])) : Triple law P (act a) Q := by
  rintro e h ⟨⟩ e' tr hP hrun
  obtain ⟨-, rfl, rfl⟩ : () = () ∧ e = e' ∧ [a] = tr := by simpa [act] using hrun
  exact ⟨lawful_singleton (hlaw e h hP), hpost e h hP⟩

/-- **A loop**, with what holds before each test and what holds before each round. -/
theorem triple_whileLoop {I J : ε → List α → Prop} {Q : Unit → ε → List α → Prop} {cond : Prog ε α Bool}
    {body : Prog ε α Unit} (hcond : Triple law I cond (fun b e h => if b then J e h else Q () e h))
    (hbody : Triple law J body (fun _ => I)) (n : Nat) : Triple law I (whileLoop cond body n) Q := by
  induction n with
  | zero =>
      intro e h b e' tr _ hrun
      exact absurd hrun (by simp [whileLoop])
  | succ n ih =>
      apply triple_bind hcond
      intro b
      cases b with
      | false => exact triple_pure (fun e h hQ => by simpa using hQ)
      | true => exact (triple_bind hbody (fun _ => ih)).weaken (fun e h hJ => by simpa using hJ) (fun _ _ _ hQ => hQ)

/-- **A list of programs, one after another.** -/
theorem triple_forM {ι : Type} {I : ε → List α → Prop} {f : ι → Prog ε α Unit} {xs : List ι}
    (hf : ∀ x ∈ xs, Triple law I (f x) (fun _ => I)) : Triple law I (xs.forM f) (fun _ => I) := by
  induction xs with
  | nil => exact triple_pure (fun _ _ hI => hI)
  | cons x xs ih =>
      show Triple law I (f x >>= fun _ => xs.forM f) (fun _ => I)
      exact triple_bind (hf x List.mem_cons_self) (fun _ => ih (fun y hy => hf y (List.mem_cons_of_mem x hy)))

end Traced
