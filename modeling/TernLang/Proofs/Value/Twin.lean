import TernLang.Eval.Evaluate
import TernLang.Proofs.Ast.Twin

-- Twin values: the same values but for the places in the bodies of functions. They have the same
-- kinds and the same texts.

namespace TernLang

-- The same names in the same order, with what belongs to them one by one.
inductive Bindings.Twin {κ α β : Type} (S : α → β → Prop) : List (κ × α) → List (κ × β) → Prop where
  | nil : Twin S [] []
  | cons (name : κ) {a : α} {b : β} {xs : List (κ × α)} {ys : List (κ × β)} (head : S a b)
    (tail : Twin S xs ys) : Twin S ((name, a) :: xs) ((name, b) :: ys)

namespace Bindings.Twin

variable {κ α β : Type} {S : α → β → Prop}

section Lists

variable {xs : List (κ × α)} {ys : List (κ × β)}

theorem flip {T : β → α → Prop} (hST : ∀ a b, S a b → T b a) (h : Bindings.Twin S xs ys) :
    Bindings.Twin T ys xs := by
  induction h with
  | nil => exact .nil
  | cons name head _ ih => exact .cons name (hST _ _ head) ih

theorem mono {T : α → β → Prop} (hST : ∀ a b, S a b → T a b) (h : Bindings.Twin S xs ys) :
    Bindings.Twin T xs ys :=
  flip (T := T) (fun _ _ => hST _ _) (h.flip (T := fun b a => S a b) fun _ _ h => h)

theorem length_eq (h : Bindings.Twin S xs ys) : xs.length = ys.length := by
  induction h with
  | nil => rfl
  | cons name _ _ ih => rw [List.length_cons, List.length_cons, ih]

theorem names_eq (h : Bindings.Twin S xs ys) : xs.map (·.1) = ys.map (·.1) := by
  induction h with
  | nil => rfl
  | cons name _ _ ih => rw [List.map_cons, List.map_cons, ih]

end Lists

variable {xs : Bindings α} {ys : Bindings β}

theorem get? (h : Bindings.Twin S xs ys) (name : String) :
    Option.Rel S (xs.get? name) (ys.get? name) := by
  induction h with
  | nil => exact .none
  | cons n head _ ih =>
    rw [Bindings.get?_cons, Bindings.get?_cons]
    split
    · exact .some head
    · exact ih

theorem put (h : Bindings.Twin S xs ys) (name : String) {a : α} {b : β} (hab : S a b) :
    Bindings.Twin S (xs.put name a) (ys.put name b) := by
  induction h with
  | nil => exact .cons name hab .nil
  | cons n head tail ih =>
    rw [Bindings.put, Bindings.put]
    split
    · exact .cons n hab tail
    · exact .cons n head ih

theorem self {S : α → α → Prop} {xs : List (κ × α)} :
    Bindings.Twin S xs xs ↔ ∀ x ∈ xs, S x.2 x.2 := by
  induction xs with
  | nil => simp [Bindings.Twin.nil]
  | cons x xs ih =>
    rw [List.forall_mem_cons, ← ih]
    constructor
    · intro h
      cases h with
      | cons _ head tail => exact ⟨head, tail⟩
    · exact fun ⟨head, tail⟩ => .cons x.1 head tail

end Bindings.Twin

namespace Failure

-- The same failure but for its place, which may also be unknown for both.
inductive Twin (R : Place → Place → Prop) : Failure → Failure → Prop where
  | error (cause : Error.Cause) {p q : Place} (place : R p q) :
    Twin R (.error ⟨cause, p⟩) (.error ⟨cause, q⟩)
  | unplaced (cause : Error.Cause) : Twin R (.ofCause cause) (.ofCause cause)
  | fault (f : Fault) : Twin R (.fault f) (.fault f)

theorem Twin.eq {e f : Failure} (h : e.Twin Eq f) : e = f := by
  cases h with
  | error cause place => rw [place]
  | unplaced cause => rfl
  | fault f => rfl

end Failure

-- The outcomes of two operations: `P` holds of what they give, or they fail in the same way.
inductive Outcome.Twin (R : Place → Place → Prop) {α β : Type} (P : α → β → Prop) :
    Except Failure α → Except Failure β → Prop where
  | ok {a : α} {b : β} (value : P a b) : Twin R P (.ok a) (.ok b)
  | error {e f : Failure} (failure : e.Twin R f) : Twin R P (.error e) (.error f)

namespace Outcome.Twin

variable {R : Place → Place → Prop} {α β γ δ : Type} {P : α → β → Prop} {Q : γ → δ → Prop}

theorem bind {x : Except Failure α} {y : Except Failure β} {f : α → Except Failure γ}
    {g : β → Except Failure δ} (h : Outcome.Twin R P x y)
    (hfg : ∀ a b, P a b → Outcome.Twin R Q (f a) (g b)) :
    Outcome.Twin R Q (x >>= f) (y >>= g) := by
  cases h with
  | ok value => exact hfg _ _ value
  | error failure => exact .error failure

theorem discard {x : Except Failure α} {y : Except Failure β} (h : Outcome.Twin R P x y) :
    Outcome.Twin R (fun _ _ => True) (discard x) (discard y) := by
  cases h with
  | ok value => exact .ok trivial
  | error failure => exact .error failure

theorem ofCause (cause : Error.Cause) :
    Outcome.Twin R P (.error (.ofCause cause)) (.error (.ofCause cause)) :=
  .error (.unplaced cause)

theorem fault (f : Fault) : Outcome.Twin R P (.error (.fault f)) (.error (.fault f)) :=
  .error (.fault f)

end Outcome.Twin

namespace Value

inductive Twin (R : Place → Place → Prop) : Value → Value → Prop where
  | null : Twin R .null .null
  | bool (b : Bool) : Twin R (.bool b) (.bool b)
  | int (n : Int) : Twin R (.int n) (.int n)
  | real (x : Float) (origin : Origin) : Twin R (.real x origin) (.real x origin)
  | str (s : String) : Twin R (.str s) (.str s)
  | array {xs ys : List Value} (each : List.Forall₂ (Twin R) xs ys) : Twin R (.array xs) (.array ys)
  | tuple {xs ys : List Value} (each : List.Forall₂ (Twin R) xs ys) : Twin R (.tuple xs) (.tuple ys)
  | object {xs ys : List (String × Value)} (each : Bindings.Twin (Twin R) xs ys) :
    Twin R (.object xs) (.object ys)
  | function (name : String) {ps qs : List (Tree × Option Value)} {r s : Option Value} {n m : Node}
    (parameters : Bindings.Twin (Option.Rel (Twin R)) ps qs) (result : Option.Rel (Twin R) r s)
    (body : n.Twin R m) : Twin R (.function ⟨name, ps, r, n⟩) (.function ⟨name, qs, s, m⟩)
  | builtin (b : Builtin) : Twin R (.builtin b) (.builtin b)
  | method (m : Method) {v w : Value} {vs ws : List Value} (receiver : Twin R v w)
    (bound : List.Forall₂ (Twin R) vs ws) : Twin R (.method m v vs) (.method m w ws)
  | alien (t : Tree) : Twin R (.alien t) (.alien t)

namespace Twin

variable {R S : Place → Place → Prop} {v w : Value}

-- Induction on twins. Of the parts that stand in lists it is known that they are twins too.
theorem induct {motive : ∀ v w : Value, v.Twin R w → Prop}
    (null : motive .null .null .null)
    (bool : ∀ b, motive (.bool b) (.bool b) (.bool b))
    (int : ∀ n, motive (.int n) (.int n) (.int n))
    (real : ∀ x origin, motive (.real x origin) (.real x origin) (.real x origin))
    (str : ∀ s, motive (.str s) (.str s) (.str s))
    (array : ∀ {xs ys} (each : List.Forall₂ (Twin R) xs ys),
      List.Forall₂ (fun v w => ∃ h, motive v w h) xs ys →
      motive (.array xs) (.array ys) (.array each))
    (tuple : ∀ {xs ys} (each : List.Forall₂ (Twin R) xs ys),
      List.Forall₂ (fun v w => ∃ h, motive v w h) xs ys →
      motive (.tuple xs) (.tuple ys) (.tuple each))
    (object : ∀ {xs ys} (each : Bindings.Twin (Twin R) xs ys),
      Bindings.Twin (fun v w => ∃ h, motive v w h) xs ys →
      motive (.object xs) (.object ys) (.object each))
    (function : ∀ name {ps qs r s n m} (hp : Bindings.Twin (Option.Rel (Twin R)) ps qs)
      (hr : Option.Rel (Twin R) r s) (hb : Node.Twin R n m),
      Bindings.Twin (Option.Rel fun v w => ∃ h, motive v w h) ps qs →
      Option.Rel (fun v w => ∃ h, motive v w h) r s →
      motive (.function ⟨name, ps, r, n⟩) (.function ⟨name, qs, s, m⟩) (.function name hp hr hb))
    (builtin : ∀ b, motive (.builtin b) (.builtin b) (.builtin b))
    (method : ∀ m {v w vs ws} (hv : Twin R v w) (hvs : List.Forall₂ (Twin R) vs ws), motive v w hv →
      List.Forall₂ (fun v w => ∃ h, motive v w h) vs ws →
      motive (.method m v vs) (.method m w ws) (.method m hv hvs))
    (alien : ∀ t, motive (.alien t) (.alien t) (.alien t)) (h : v.Twin R w) : motive v w h :=
  @Twin.rec R motive (fun xs ys _ => List.Forall₂ (fun v w => ∃ h, motive v w h) xs ys)
    (fun xs ys _ => Bindings.Twin (fun v w => ∃ h, motive v w h) xs ys)
    (fun ps qs _ => Bindings.Twin (Option.Rel fun v w => ∃ h, motive v w h) ps qs)
    (fun r s _ => Option.Rel (fun v w => ∃ h, motive v w h) r s)
    null bool int real str array tuple object function builtin method alien
    .nil (fun h _ ih => .cons ⟨h, ih⟩) .nil (fun name _ _ _ _ h _ ih => .cons name ⟨h, ih⟩)
    .nil (fun name _ _ _ _ _ _ ih => .cons name ih) (fun h ih => .some ⟨h, ih⟩) .none v w h

theorem swap (hRS : ∀ p q, R p q → S q p) (h : v.Twin R w) : w.Twin S v := by
  have hpart (v w : Value) : (∃ _ : v.Twin R w, w.Twin S v) → w.Twin S v := fun h => h.2
  induction h using induct with
  | null => exact .null
  | bool b => exact .bool b
  | int n => exact .int n
  | real x origin => exact .real x origin
  | str s => exact .str s
  | array _ ih => exact .array (ih.imp hpart).flip
  | tuple _ ih => exact .tuple (ih.imp hpart).flip
  | object _ ih => exact .object (ih.flip hpart)
  | function name _ _ hb ihp ihr =>
    exact .function name (ihp.flip fun _ _ => rel_flip hpart) (rel_flip hpart ihr) (hb.swap hRS)
  | builtin b => exact .builtin b
  | method m _ _ ihv ihvs => exact .method m ihv (ihvs.imp hpart).flip
  | alien t => exact .alien t

theorem mono (hRS : ∀ p q, R p q → S p q) (h : v.Twin R w) : v.Twin S w :=
  swap (R := fun q p => R p q) (fun _ _ => hRS _ _) (h.swap fun _ _ hp => hp)

mutual

theorem refl (hR : ∀ p, R p p) : ∀ v : Value, v.Twin R v
  | .null => .null
  | .bool b => .bool b
  | .int n => .int n
  | .real x origin => .real x origin
  | .str s => .str s
  | .array items => .array (refl_all hR items)
  | .tuple items => .tuple (refl_all hR items)
  | .object fields => .object (refl_fields hR fields)
  | .function ⟨name, ps, r, n⟩ =>
    .function name (refl_parameters hR ps) (refl_some hR r) (.refl hR n)
  | .builtin b => .builtin b
  | .method m v vs => .method m (refl hR v) (refl_all hR vs)
  | .alien t => .alien t

theorem refl_all (hR : ∀ p, R p p) : ∀ vs : List Value, List.Forall₂ (Twin R) vs vs
  | [] => .nil
  | v :: vs => .cons (refl hR v) (refl_all hR vs)

theorem refl_some (hR : ∀ p, R p p) : ∀ v : Option Value, Option.Rel (Twin R) v v
  | none => .none
  | some v => .some (refl hR v)

theorem refl_fields (hR : ∀ p, R p p) : ∀ fs : List (String × Value), Bindings.Twin (Twin R) fs fs
  | [] => .nil
  | (name, v) :: fs => .cons name (refl hR v) (refl_fields hR fs)

theorem refl_parameters (hR : ∀ p, R p p) :
    ∀ ps : List (Tree × Option Value), Bindings.Twin (Option.Rel (Twin R)) ps ps
  | [] => .nil
  | (name, v) :: ps => .cons name (refl_some hR v) (refl_parameters hR ps)

end

theorem eq_all {vs ws : List Value}
    (h : List.Forall₂ (fun v w => ∃ _ : v.Twin Eq w, v = w) vs ws) : vs = ws := by
  have heach := h.imp fun _ _ h => h.2
  rwa [List.forall₂_eq_eq_eq] at heach

theorem eq_some {r s : Option Value}
    (h : Option.Rel (fun v w => ∃ _ : v.Twin Eq w, v = w) r s) : r = s := by
  cases h with
  | some h => rw [h.2]
  | none => rfl

theorem eq_named {κ α : Type} {T : α → α → Prop} (hT : ∀ a b, T a b → a = b)
    {xs ys : List (κ × α)} (h : Bindings.Twin T xs ys) : xs = ys := by
  induction h with
  | nil => rfl
  | cons name head _ ih => rw [hT _ _ head, ih]

-- Values whose places are the same are the same.
theorem eq (h : v.Twin Eq w) : v = w := by
  induction h using induct with
  | array _ ih | tuple _ ih => rw [eq_all ih]
  | object _ ih => rw [eq_named (fun _ _ h => h.2) ih]
  | function name _ _ hb ihp ihr => rw [eq_named (fun _ _ => eq_some) ihp, eq_some ihr, hb.eq]
  | method m _ _ ihv ihvs => rw [ihv, eq_all ihvs]
  | _ => rfl

theorem kind (h : v.Twin R w) : Outcome.Twin R Eq v.kind w.kind := by
  cases h with
  | alien t => exact .ofCause _
  | _ => exact .ok rfl

theorem given (h : v.Twin R w) : Option.Rel (Twin R) v.given w.given := by
  cases h with
  | alien t =>
    cases t with
    | null => exact .none
    | _ => exact .some (.alien _)
  | null => exact .some .null
  | bool b => exact .some (.bool b)
  | int n => exact .some (.int n)
  | real x origin => exact .some (.real x origin)
  | str s => exact .some (.str s)
  | array each => exact .some (.array each)
  | tuple each => exact .some (.tuple each)
  | object each => exact .some (.object each)
  | function name hp hr hb => exact .some (.function name hp hr hb)
  | builtin b => exact .some (.builtin b)
  | method m hv hvs => exact .some (.method m hv hvs)

theorem haveText_of_forall₂ {vs ws : List Value}
    (h : List.Forall₂ (fun v w => v.hasText = w.hasText) vs ws) : haveText vs = haveText ws := by
  induction h with
  | nil => rfl
  | cons head _ ih => rw [haveText, haveText, head, ih]

theorem fieldsHaveText_of_twin {fs gs : List (String × Value)}
    (h : Bindings.Twin (fun v w => ∃ _ : v.Twin R w, v.hasText = w.hasText) fs gs) :
    fieldsHaveText fs = fieldsHaveText gs := by
  induction h with
  | nil => rfl
  | cons name head _ ih => rw [fieldsHaveText, fieldsHaveText, head.2, ih]

theorem hasText (h : v.Twin R w) : v.hasText = w.hasText := by
  induction h using induct with
  | array _ ih | tuple _ ih => exact haveText_of_forall₂ (ih.imp fun _ _ h => h.2)
  | object _ ih => exact fieldsHaveText_of_twin ih
  | _ => rfl

theorem haveText {vs ws : List Value} (h : List.Forall₂ (Twin R) vs ws) :
    Value.haveText vs = Value.haveText ws :=
  haveText_of_forall₂ (h.imp fun _ _ => hasText)

theorem debugAll_of_forall₂ {vs ws : List Value}
    (h : List.Forall₂ (fun v w => v.debug = w.debug) vs ws) : debugAll vs = debugAll ws := by
  induction h with
  | nil => rfl
  | cons head _ ih => rw [debugAll, debugAll, head, ih]

theorem debugFields_of_twin {fs gs : List (String × Value)}
    (h : Bindings.Twin (fun v w => ∃ _ : v.Twin R w, v.debug = w.debug) fs gs) :
    debugFields fs = debugFields gs := by
  induction h with
  | nil => rfl
  | cons name head _ ih => rw [debugFields, debugFields, head.2, ih]

theorem debug (h : v.Twin R w) : v.debug = w.debug := by
  induction h using induct with
  | array _ ih | tuple _ ih =>
    simp only [Value.debug, debugAll_of_forall₂ (ih.imp fun _ _ h => h.2)]
  | object _ ih => simp only [Value.debug, debugFields_of_twin ih]
  | _ => rfl

theorem displayAll_of_forall₂ {vs ws : List Value}
    (h : List.Forall₂ (fun v w => v.display = w.display) vs ws) :
    displayAll vs = displayAll ws := by
  induction h with
  | nil => rfl
  | cons head _ ih => rw [displayAll, displayAll, head, ih]

theorem display (h : v.Twin R w) : v.display = w.display := by
  have hdebug := h.debug
  induction h using induct with
  | array each ih =>
    have heach := ih.imp fun _ _ h => h.2 h.1.debug
    simp only [Value.display, displayAll_of_forall₂ heach]
  | str s => rfl
  | _ => exact hdebug

theorem displayAll {vs ws : List Value} (h : List.Forall₂ (Twin R) vs ws) :
    Value.displayAll vs = Value.displayAll ws :=
  displayAll_of_forall₂ (h.imp fun _ _ => display)

end Twin

end Value

end TernLang
