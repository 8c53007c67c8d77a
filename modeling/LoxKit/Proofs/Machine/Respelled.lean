import LoxKit.Machine.Eval
import LoxKit.Proofs.Machine.Operators
import LoxKit.Proofs.Tree.Renaming

/-!
# Values with variables renamed

A program and the same program with local variables renamed make the same frames.  In some of
them the variable is renamed (`Marking`): a frame on the second side binds what the frame of the
same number binds on the first, under the name as it is spelled there.

Two values are alike (`Value.Respelled`) if they are built alike, and each function of the second
has the text of that of the first, renamed in scopes around it as the frames are marked around its
home (`Marking.At`).
-/
namespace LoxKit

namespace Bindings

variable {α β : Type} {P : α → β → Prop} {f : String → String}

/-- Bindings that are related go on to be so with a related value put in, under a name as it is
spelled on the second side. -/
theorem rel_put (hf : Function.Injective f) {b : Bindings α} {b' : Bindings β} {v : α}
    {v' : β} (hb : ∀ x, Option.Rel P (b.get? x) (b'.get? (f x))) (hv : P v v') (x y : String) :
    Option.Rel P ((b.put x v).get? y) ((b'.put (f x) v').get? (f y)) := by
  rw [get?_put, get?_put]
  by_cases hy : y = x
  · rw [if_pos hy, if_pos (congrArg f hy)]
    exact .some hv
  · rw [if_neg hy, if_neg (hf.ne hy)]
    exact hb y

/-- **Bindings made of related entries** are related. -/
theorem rel_ofList_spelled (hf : Function.Injective f) {es : List (String × α)}
    {es' : List (String × β)}
    (h : List.Forall₂ (fun e e' => e'.1 = f e.1 ∧ P e.2 e'.2) es es') (x : String) :
    Option.Rel P ((ofList es).get? x) ((ofList es').get? (f x)) := by
  suffices hfold : ∀ (b : Bindings α) (b' : Bindings β),
      (∀ x, Option.Rel P (b.get? x) (b'.get? (f x))) →
      Option.Rel P ((es.foldl (fun b e => b.put e.1 e.2) b).get? x)
        ((es'.foldl (fun b e => b.put e.1 e.2) b').get? (f x)) from
    hfold .empty .empty fun _ => .none
  induction h with
  | nil => exact fun b b' hb => hb x
  | cons he _ ih =>
    intro b b' hb
    rw [List.foldl_cons, List.foldl_cons, he.1]
    exact ih _ _ fun y => rel_put hf hb he.2 _ y

end Bindings

/-! ## Frames that are marked -/

/-- **In which frames the variable is renamed.** -/
structure Marking where
  marks : FrameId → Bool
  frames : Store (Value FrameId)

namespace Marking

/-- **The scopes around a place in a frame** are marked so, the frame's own first. -/
inductive At (s : Marking) : FrameId → Marks → Prop where
  | global : At s globalFrame .none
  | inside {f g : FrameId} {marks : Marks} : s.frames.enclosing? f = some g → At s g marks →
    At s f (marks.push (s.marks f))

/-- **A marking of a later moment**: frames stay where they are, marked as they are, and keep
their names. -/
structure Later (s s' : Marking) : Prop where
  marks : ∀ f < s.frames.frames.size, s'.marks f = s.marks f
  size_le : s.frames.frames.size ≤ s'.frames.frames.size
  enclosing : ∀ f < s.frames.frames.size, s'.frames.enclosing? f = s.frames.enclosing? f
  names : ∀ f x, (s.frames.bindings f).contains x → (s'.frames.bindings f).contains x

variable {s s' s'' : Marking} {f g : FrameId} {marks : Marks}

theorem Later.refl (s : Marking) : s.Later s :=
  ⟨fun _ _ => rfl, Nat.le_refl _, fun _ _ => rfl, fun _ _ h => h⟩

theorem Later.trans (h : s.Later s') (h' : s'.Later s'') : s.Later s'' where
  marks f hf := (h'.marks f (Nat.lt_of_lt_of_le hf h.size_le)).trans (h.marks f hf)
  size_le := Nat.le_trans h.size_le h'.size_le
  enclosing f hf := (h'.enclosing f (Nat.lt_of_lt_of_le hf h.size_le)).trans (h.enclosing f hf)
  names f x hx := h'.names f x (h.names f x hx)

theorem At.later (h : s.At f marks) (hs : s.Later s') : s'.At f marks := by
  induction h with
  | global => exact .global
  | @inside f g marks hg _ ih =>
    have hf := Store.lt_size_of_enclosing? hg
    rw [← hs.marks f hf]
    exact .inside ((hs.enclosing f hf).trans hg) ih

/-- **A frame so many links outward is marked as the scope as far out.** -/
theorem At.mark (h : s.At f marks) (hglobal : s.marks globalFrame = false)
    (hout : s.frames.enclosing? globalFrame = none) {d : Nat}
    (hd : s.frames.outward? f d = some g) : s.marks g = marks d := by
  induction h generalizing d with
  | global =>
    cases d with
    | zero =>
      cases hd
      exact hglobal
    | succ d =>
      rw [Store.outward?, hout] at hd
      cases hd
  | inside hg _ ih =>
    cases d with
    | zero =>
      cases hd
      rfl
    | succ d =>
      rw [Store.outward?, hg] at hd
      exact ih hd

/-- Only frames have scopes around them. -/
theorem At.lt_size (h : s.At f marks) (hpos : globalFrame < s.frames.frames.size) :
    f < s.frames.frames.size := by
  cases h with
  | global => exact hpos
  | inside hg _ => exact Store.lt_size_of_enclosing? hg

end Marking

/-! ## Values -/

section Values

variable (R : Renaming) (s : Marking)

/-- **Two functions are alike**, which run in so many scopes more than there are around their
home. -/
structure Closure.Respelled (inside : Marks → Marks) (f f' : Closure FrameId) : Prop where
  home : f'.home = f.home
  isInitializer : f'.isInitializer = f.isInitializer
  decl : ∃ marks, s.At f.home marks ∧ f.decl.Renamed R (inside marks) f'.decl

/-- Two classes are alike in what they declare themselves.  Methods run inside the scope of their
object. -/
structure ClassHead.Respelled (h h' : ClassHead FrameId) : Prop where
  number : h'.number = h.number
  name : h'.name = h.name
  methods : ∀ x, Option.Rel (Closure.Respelled R s (Marks.push false)) (h.methods.get? x)
    (h'.methods.get? x)

/-- **Two classes are alike**, and so are those that they inherit from. -/
inductive ClassValue.Respelled : ClassValue FrameId → ClassValue FrameId → Prop where
  | root {h h'} : h.Respelled R s h' → ClassValue.Respelled (.root h) (.root h')
  | derived {h h' c c'} : h.Respelled R s h' → ClassValue.Respelled c c' →
    ClassValue.Respelled (.derived h c) (.derived h' c')

/-- **Two values are alike.** -/
inductive Value.Respelled : Value FrameId → Value FrameId → Prop where
  | nil : Value.Respelled .nil .nil
  | bool (b : Bool) : Value.Respelled (.bool b) (.bool b)
  | number (x : Float) : Value.Respelled (.number x) (.number x)
  | string (t : String) : Value.Respelled (.string t) (.string t)
  | native (f : Native) : Value.Respelled (.native f) (.native f)
  | function {f f'} : f.Respelled R s id f' → Value.Respelled (.function f) (.function f')
  | classValue {c c'} : c.Respelled R s c' → Value.Respelled (.classValue c) (.classValue c')
  | object (id : ObjectId) {c c'} : c.Respelled R s c' →
    Value.Respelled (.object id c) (.object id c')

/-- **Two completions are alike.** -/
inductive Completion.Respelled : Completion FrameId → Completion FrameId → Prop where
  | normal : Completion.Respelled .normal .normal
  | leave : Completion.Respelled .leave .leave
  | giveBack {v v'} : v.Respelled R s v' → Completion.Respelled (.giveBack v) (.giveBack v')

end Values

section Values

variable {R : Renaming} {s s' : Marking}

/-- Functions keep their arity. -/
theorem FunDecl.Renamed.arity {marks : Marks} {d d' : FunDecl} (h : d.Renamed R marks d') :
    d'.arity = d.arity := by
  cases h
  simp [FunDecl.arity, FunDecl.params]

theorem Closure.Respelled.later {inside : Marks → Marks} {f f' : Closure FrameId}
    (h : f.Respelled R s inside f') (hs : s.Later s') : f.Respelled R s' inside f' := by
  obtain ⟨hhome, hinit, marks, hat, hdecl⟩ := h
  exact ⟨hhome, hinit, marks, hat.later hs, hdecl⟩

theorem Closure.Respelled.arity {inside : Marks → Marks} {f f' : Closure FrameId}
    (h : f.Respelled R s inside f') : f'.decl.arity = f.decl.arity := by
  obtain ⟨-, -, marks, -, hdecl⟩ := h
  exact hdecl.arity

theorem ClassHead.Respelled.later {h h' : ClassHead FrameId} (hh : h.Respelled R s h')
    (hs : s.Later s') : h.Respelled R s' h' := by
  refine ⟨hh.number, hh.name, fun x => ?_⟩
  have hx := hh.methods x
  generalize h.methods.get? x = f at hx ⊢
  generalize h'.methods.get? x = f' at hx ⊢
  cases hx with
  | none => exact .none
  | some hf => exact .some (hf.later hs)

theorem ClassValue.Respelled.later {c c' : ClassValue FrameId} (h : c.Respelled R s c')
    (hs : s.Later s') : c.Respelled R s' c' := by
  induction h with
  | root hh => exact .root (hh.later hs)
  | derived hh _ ih => exact .derived (hh.later hs) ih

theorem Value.Respelled.later {v v' : Value FrameId} (h : v.Respelled R s v')
    (hs : s.Later s') : v.Respelled R s' v' := by
  cases h with
  | nil => exact .nil
  | bool b => exact .bool b
  | number x => exact .number x
  | string t => exact .string t
  | native f => exact .native f
  | function hf => exact .function (hf.later hs)
  | classValue hc => exact .classValue (hc.later hs)
  | object id hc => exact .object id (hc.later hs)

theorem Value.Respelled.rel_later {v v' : Option (Value FrameId)}
    (h : Option.Rel (Value.Respelled R s) v v') (hs : s.Later s') :
    Option.Rel (Value.Respelled R s') v v' := by
  cases h with
  | none => exact .none
  | some hv => exact .some (hv.later hs)

theorem ClassValue.Respelled.head {c c' : ClassValue FrameId} (h : c.Respelled R s c') :
    c.head.Respelled R s c'.head := by
  cases h with
  | root hh => exact hh
  | derived hh _ => exact hh

/-- **Classes that are alike have like methods** of each name. -/
theorem ClassValue.Respelled.method? {c c' : ClassValue FrameId} (h : c.Respelled R s c')
    (x : String) :
    Option.Rel (Closure.Respelled R s (Marks.push false)) (c.method? x) (c'.method? x) := by
  induction h with
  | root hh => exact hh.methods x
  | @derived h h' c c' hh _ ih =>
    rw [ClassValue.method?, ClassValue.method?]
    have hx := hh.methods x
    generalize h.methods.get? x = f at hx
    generalize h'.methods.get? x = f' at hx
    cases hx with
    | none => simpa using ih
    | some hf => exact .some hf

theorem ClassValue.Respelled.arity {c c' : ClassValue FrameId} (h : c.Respelled R s c') :
    c'.arity = c.arity := by
  have hinit := h.method? "init"
  simp only [ClassValue.arity, ClassValue.initializer?]
  generalize c.method? "init" = f at hinit
  generalize c'.method? "init" = f' at hinit
  cases hinit with
  | none => rfl
  | some hf => simp [hf.arity]

/-- A class that is made of like parts. -/
theorem ClassValue.Respelled.of {h h' : ClassHead FrameId} {c c' : Option (ClassValue FrameId)}
    (hh : h.Respelled R s h') (hc : Option.Rel (ClassValue.Respelled R s) c c') :
    ClassValue.Respelled R s (.of h c) (.of h' c') := by
  cases hc with
  | none => exact .root hh
  | some hc => exact .derived hh hc

namespace Value.Respelled

variable {v v' w w' : Value FrameId}

theorem ofLiteral (v : Literal) : Value.Respelled R s (.ofLiteral v) (.ofLiteral v) := by
  cases v with
  | nil => exact .nil
  | bool b => exact .bool b
  | number x => exact .number x
  | string t => exact .string t

theorem truthy (h : v.Respelled R s v') : v'.truthy = v.truthy := by cases h <;> rfl

theorem isString (h : v.Respelled R s v') : v'.isString = v.isString := by cases h <;> rfl

theorem equals (hv : v.Respelled R s v') (hw : w.Respelled R s w') :
    v'.equals w' = v.equals w := by
  cases hv with
  | classValue hc =>
    cases hw with
    | classValue hd => simp only [Value.equals, hc.head.number, hd.head.number]
    | _ => rfl
  | _ => cases hw <;> rfl

/-- **Values that are alike are written alike**: functions and classes keep their names. -/
theorem render (h : v.Respelled R s v') : v'.render = v.render := by
  cases h with
  | bool b => cases b <;> rfl
  | function hf =>
    obtain ⟨-, -, marks, -, hdecl⟩ := hf
    simp [Value.render, hdecl.name]
  | classValue hc | object id hc => simp [Value.render, ClassValue.name, hc.head.name]
  | _ => rfl

theorem words (h : v.Respelled R s v') : Spare.words v' = Spare.words v := by cases h <;> rfl

theorem compare (h : v.Respelled R s v') : Spare.compare v' = Spare.compare v := by
  cases h <;> rfl

/-- Values that are alike take as many arguments. -/
theorem arity? (h : v.Respelled R s v') : Machine.arity? v' = Machine.arity? v := by
  cases h with
  | function hf => exact congrArg some hf.arity
  | classValue hc => exact congrArg some hc.arity
  | _ => rfl

/-- An operator needs as much spare room for values that are alike. -/
theorem spare_binary (hv : v.Respelled R s v') (hw : w.Respelled R s w') (op : Token) :
    Spare.binary op v' w' = Spare.binary op v w := by
  simp only [Spare.binary, hv.isString, hw.isString, hv.words, hw.words, hv.compare]

end Value.Respelled

/-- Values that are alike look the same to operators. -/
theorem Value.respects_respelled : Operator.Respects (Value.Respelled R s) where
  number? h := by cases h <;> rfl
  isString h := h.isString
  truthy h := h.truthy
  render h := h.render
  equals hv hw := hv.equals hw
  ofNumber := .number
  ofString := .string
  ofBool := .bool

/-- **The methods of a class** are alike if their declarations are. -/
theorem rel_methodTable_renamed {frame : FrameId} {marks : Marks} {ms ms' : List FunDecl}
    (hat : s.At frame marks) (hms : FunDecl.AllRenamed R (marks.push false) ms ms')
    (x : String) :
    Option.Rel (Closure.Respelled R s (Marks.push false))
      ((Machine.methodTable frame ms).get? x) ((Machine.methodTable frame ms').get? x) := by
  refine Bindings.rel_ofList_spelled (f := id) Function.injective_id ?_ x
  rw [List.forall₂_map_left_iff, List.forall₂_map_right_iff]
  refine (FunDecl.allRenamed_iff.mp hms).imp fun d d' hd => ⟨?_, rfl, ?_, marks, hat, hd⟩
  · rw [hd.name]
    rfl
  · simp only [FunDecl.isInitializer, hd.name]

end Values
end LoxKit
