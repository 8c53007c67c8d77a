import LoxKit.Proofs.Machine.Chronicle
import LoxKit.Proofs.Machine.Holds

/-!
# What methods are bound to

A method is bound to an object in a frame of its own, between the frame of its class and the frames
of its calls.  Programs have no name for what is bound there, nor for the superclass that is bound
around the methods of a class: the two words are no names (`Token.IsName`).  So what a chronicle
says of such a frame remains true of it (`Noted.Later`).

A machine is **accounted for** by a chronicle (`Noted.Accounted`) if

* each function of the machine is a copy of a method, made for the object in the frame it is at
  home in, or else a function that is no method (`Noted.FunctionFrom`);
* each method of its classes is one of the class that was made of its declaration, and at home
  where the declaration stood, or in a frame there that binds the superclass of the class
  (`Noted.MethodFrom`, `Noted.HomeOf`);
* inside the frame of an object there are the frames of calls of its method and no others.

Here this is shown to remain so when names are defined and assigned, when objects change, and when
frames are opened.
-/
namespace LoxKit

open Scope

namespace Noted

/-! ## What a chronicle says -/

section

variable (n : Noted Entry)

/-- A frame was opened for something. -/
def Opened (f : FrameId) (o : Opening) : Prop := .opened f o ∈ n.journal

/-- A frame binds an object for a copy of a method. -/
def Bound (f : FrameId) (g : Closure FrameId) (this : Value FrameId) : Prop :=
  .bound f g this ∈ n.notes

/-- A class was made of its declaration. -/
def Declared (site : ClassSite) (c : ClassValue FrameId) : Prop := .declared site c ∈ n.notes

/-- **A frame for names of the program**: it binds no object for a method, and no superclass. -/
structure Ordinary (f : FrameId) : Prop where
  live : f < n.machine.frames.frames.size
  unbound : ∀ g i, ¬n.Bound f g i
  notParent : ∀ site, ¬n.Opened f (.parent site)

/-- **A frame is home to the methods of a class**: if it binds a superclass, it was opened for the
declaration of the class, and that is the superclass of the class. -/
structure HomeOf (f : FrameId) (site : ClassSite) (parent : Option (ClassValue FrameId)) :
    Prop where
  live : f < n.machine.frames.frames.size
  unbound : ∀ g i, ¬n.Bound f g i
  parent : ∀ site', n.Opened f (.parent site') → site' = site ∧ ∃ c, parent = some c ∧
    (n.machine.frames.bindings f).get? superName = some (.classValue c)

/-- **A method is one of a class** that was made of its declaration. -/
structure Declares (site : ClassSite) (c : ClassValue FrameId) (g : Closure FrameId) : Prop where
  declared : n.Declared site c
  mem : g.decl ∈ site.methods
  found : c.head.methods.get? g.decl.name.lexeme = some g
  home : n.HomeOf g.home site c.superclass?

/-- **A method as its class has it**, not bound to anything. -/
structure MethodFrom (g : Closure FrameId) : Prop where
  shaped : g.decl.Shaped
  initializer : g.isInitializer = g.decl.isInitializer
  declared : ∃ site c, n.Declares site c g

/-- **A function as a program has it**: a copy of the method for which its frame binds an object,
or no method. -/
structure FunctionFrom (f : Closure FrameId) : Prop where
  live : f.home < n.machine.frames.frames.size
  shaped : f.decl.Shaped
  copy : ∀ g i, n.Bound f.home g i → f = { g with home := f.home }
  initializer : f.isInitializer → ∃ g i, n.Bound f.home g i

/-- **A class has such methods**, each under its name, and inherits such. -/
def ClassFrom (c : ClassValue FrameId) : Prop :=
  c.Each fun x g => g.decl.name.lexeme = x ∧ n.MethodFrom g

/-- **A value is made of such functions**, and of objects that there are. -/
def ValueFrom : Value FrameId → Prop
  | .function f => n.FunctionFrom f
  | .classValue c => n.ClassFrom c
  | .object id c => id < n.machine.fields.size ∧ n.ClassFrom c
  | _ => True

/-- What a statement leaves to its surroundings is made of such functions. -/
def CompletionFrom : Completion FrameId → Prop
  | .giveBack v => n.ValueFrom v
  | _ => True

/-- **What is the case where a method is bound to an object.** -/
structure Binds (f : FrameId) (g : Closure FrameId) (i : Value FrameId) : Prop where
  enclosing : n.machine.frames.enclosing? f = some g.home
  this : (n.machine.frames.bindings f).get? thisName = some i
  method : n.MethodFrom g
  object : ∃ id c, i = .object id c

/-- **A machine is accounted for** by its chronicle. -/
structure Accounted : Prop where
  current : n.Ordinary n.machine.current
  values : ∀ f x v, (n.machine.frames.bindings f).get? x = some v → n.ValueFrom v
  fields : ∀ (id : ObjectId) b, n.machine.fields[id]? = some b →
    ∀ x v, b.get? x = some v → n.ValueFrom v
  enclosed : ∀ f e, n.machine.frames.enclosing? f = some e → e < n.machine.frames.frames.size
  opened : ∀ f o, n.Opened f o → f < n.machine.frames.frames.size
  once : ∀ f o o', n.Opened f o → n.Opened f o' → o = o'
  receiver : ∀ f d, n.Opened f (.receiver d) → ∃ g i, n.Bound f g i ∧ g.decl = d
  bound : ∀ f g i, n.Bound f g i → n.Binds f g i
  /-- Inside the frame of an object there are calls of its method. -/
  call : ∀ f e g i, n.machine.frames.enclosing? f = some e → n.Bound e g i →
    n.Opened f (.call g.decl)
  this : ∀ f v, (n.machine.frames.bindings f).get? thisName = some v → ∃ g, n.Bound f g v

/-- **What lasts in a machine with its chronicle**: frames stay where they are, with what is hidden
in them, and nothing more is said of them. -/
structure Later (n n' : Noted Entry) : Prop where
  size_le : n.machine.frames.frames.size ≤ n'.machine.frames.frames.size
  enclosing : ∀ f < n.machine.frames.frames.size,
    n'.machine.frames.enclosing? f = n.machine.frames.enclosing? f
  hidden : ∀ f < n.machine.frames.frames.size, ∀ x, x = thisName ∨ x = superName →
    (n'.machine.frames.bindings f).get? x = (n.machine.frames.bindings f).get? x
  opened : ∀ f < n.machine.frames.frames.size, ∀ o, n'.Opened f o ↔ n.Opened f o
  bound : ∀ f < n.machine.frames.frames.size, ∀ g i, n'.Bound f g i ↔ n.Bound f g i
  declared : ∀ site c, n.Declared site c → n'.Declared site c
  fields_le : n.machine.fields.size ≤ n'.machine.fields.size

end

variable {n n' n'' : Noted Entry}

namespace Later

theorem refl (n : Noted Entry) : n.Later n :=
  ⟨Nat.le_refl _, fun _ _ => rfl, fun _ _ _ _ => rfl, fun _ _ _ => Iff.rfl,
    fun _ _ _ _ => Iff.rfl, fun _ _ h => h, Nat.le_refl _⟩

theorem trans (h : n.Later n') (h' : n'.Later n'') : n.Later n'' where
  size_le := Nat.le_trans h.size_le h'.size_le
  enclosing f hf := by rw [h'.enclosing f (Nat.lt_of_lt_of_le hf h.size_le), h.enclosing f hf]
  hidden f hf x hx := by
    rw [h'.hidden f (Nat.lt_of_lt_of_le hf h.size_le) x hx, h.hidden f hf x hx]
  opened f hf o := (h'.opened f (Nat.lt_of_lt_of_le hf h.size_le) o).trans (h.opened f hf o)
  bound f hf g i := (h'.bound f (Nat.lt_of_lt_of_le hf h.size_le) g i).trans (h.bound f hf g i)
  declared site c hc := h'.declared site c (h.declared site c hc)
  fields_le := Nat.le_trans h.fields_le h'.fields_le

end Later

/-! ### What lasts -/

theorem Ordinary.later {f : FrameId} (hf : n.Ordinary f) (h : n.Later n') : n'.Ordinary f where
  live := Nat.lt_of_lt_of_le hf.live h.size_le
  unbound g i hb := hf.unbound g i ((h.bound f hf.live g i).mp hb)
  notParent site ho := hf.notParent site ((h.opened f hf.live _).mp ho)

theorem HomeOf.later {f : FrameId} {site : ClassSite} {parent : Option (ClassValue FrameId)}
    (hf : n.HomeOf f site parent) (h : n.Later n') : n'.HomeOf f site parent where
  live := Nat.lt_of_lt_of_le hf.live h.size_le
  unbound g i hb := hf.unbound g i ((h.bound f hf.live g i).mp hb)
  parent site' ho := by
    rw [h.hidden f hf.live superName (.inr rfl)]
    exact hf.parent site' ((h.opened f hf.live _).mp ho)

/-- A frame for names of the program is home to whatever is declared there. -/
theorem Ordinary.homeOf {f : FrameId} (hf : n.Ordinary f) (site : ClassSite)
    (parent : Option (ClassValue FrameId)) : n.HomeOf f site parent :=
  ⟨hf.live, hf.unbound, fun site' ho => absurd ho (hf.notParent site')⟩

theorem MethodFrom.live {g : Closure FrameId} (hg : n.MethodFrom g) :
    g.home < n.machine.frames.frames.size := by
  obtain ⟨site, c, hdeclares⟩ := hg.declared
  exact hdeclares.home.live

/-- A method is not at home where an object is bound. -/
theorem MethodFrom.unbound {g : Closure FrameId} (hg : n.MethodFrom g) (g' : Closure FrameId)
    (i : Value FrameId) : ¬n.Bound g.home g' i := by
  obtain ⟨site, c, hdeclares⟩ := hg.declared
  exact hdeclares.home.unbound g' i

theorem MethodFrom.later {g : Closure FrameId} (hg : n.MethodFrom g) (h : n.Later n') :
    n'.MethodFrom g where
  shaped := hg.shaped
  initializer := hg.initializer
  declared := by
    obtain ⟨site, c, hdeclares⟩ := hg.declared
    exact ⟨site, c, h.declared site c hdeclares.declared, hdeclares.mem, hdeclares.found,
      hdeclares.home.later h⟩

theorem FunctionFrom.later {f : Closure FrameId} (hf : n.FunctionFrom f) (h : n.Later n') :
    n'.FunctionFrom f where
  live := Nat.lt_of_lt_of_le hf.live h.size_le
  shaped := hf.shaped
  copy g i hb := hf.copy g i ((h.bound _ hf.live g i).mp hb)
  initializer hi := by
    obtain ⟨g, i, hb⟩ := hf.initializer hi
    exact ⟨g, i, (h.bound _ hf.live g i).mpr hb⟩

theorem ClassFrom.later {c : ClassValue FrameId} (hc : n.ClassFrom c) (h : n.Later n') :
    n'.ClassFrom c := hc.imp fun _ _ hg => ⟨hg.1, hg.2.later h⟩

theorem ValueFrom.later {v : Value FrameId} (hv : n.ValueFrom v) (h : n.Later n') :
    n'.ValueFrom v := by
  cases v with
  | function f => exact FunctionFrom.later hv h
  | classValue c => exact ClassFrom.later hv h
  | object id c => exact ⟨Nat.lt_of_lt_of_le hv.1 h.fields_le, ClassFrom.later hv.2 h⟩
  | _ => trivial

theorem CompletionFrom.later {c : Completion FrameId} (hc : n.CompletionFrom c)
    (h : n.Later n') : n'.CompletionFrom c := by
  cases c with
  | giveBack v => exact ValueFrom.later hc h
  | _ => trivial

theorem valueFrom_ofLiteral (v : Literal) : n.ValueFrom (.ofLiteral v) := by
  cases v <;> trivial

theorem valueFrom_of_plain {v : Value FrameId} (h : v.Plain) : n.ValueFrom v := by
  cases v <;> trivial

theorem Bound.opened {f : FrameId} {g : Closure FrameId} {i : Value FrameId}
    (h : n.Bound f g i) : n.Opened f (.receiver g.decl) :=
  List.mem_filterMap.mpr ⟨_, h, rfl⟩

/-- The frames of objects are frames. -/
theorem Accounted.bound_lt (h : n.Accounted) {f : FrameId} {g : Closure FrameId}
    {i : Value FrameId} (hb : n.Bound f g i) : f < n.machine.frames.frames.size :=
  h.opened _ _ hb.opened

/-! ## Changes of the machine -/

/-- **The machine changes, but its frames and their hidden names stay.** -/
structure Same (m m' : Machine) : Prop where
  size : m'.frames.frames.size = m.frames.frames.size
  current : m'.current = m.current
  enclosing : ∀ f, m'.frames.enclosing? f = m.frames.enclosing? f
  hidden : ∀ f x, x = thisName ∨ x = superName →
    (m'.frames.bindings f).get? x = (m.frames.bindings f).get? x
  fields_le : m.fields.size ≤ m'.fields.size

theorem Same.later {m' : Machine} (h : Same n.machine m') : n.Later { n with machine := m' } :=
  ⟨Nat.le_of_eq h.size.symm, fun f _ => h.enclosing f, fun f _ => h.hidden f,
    fun _ _ _ => Iff.rfl, fun _ _ _ _ => Iff.rfl, fun _ _ hc => hc, h.fields_le⟩

theorem Binds.later {f : FrameId} {g : Closure FrameId} {i : Value FrameId} (hb : n.Binds f g i)
    (h : n.Later n') : n'.Binds f g i where
  enclosing := (h.enclosing f (Store.lt_size_of_enclosing? hb.enclosing)).trans hb.enclosing
  this := (h.hidden f (Store.lt_size_of_enclosing? hb.enclosing) _ (.inl rfl)).trans hb.this
  method := hb.method.later h
  object := hb.object

theorem Accounted.same (h : n.Accounted) {m' : Machine} (hsame : Same n.machine m')
    (hvalues : ∀ f x v, (m'.frames.bindings f).get? x = some v → n.ValueFrom v)
    (hfields : ∀ (id : ObjectId) b, m'.fields[id]? = some b →
      ∀ x v, b.get? x = some v → n.ValueFrom v) :
    Accounted { n with machine := m' } := by
  have hlater := hsame.later
  exact {
    current := by
      show Ordinary _ m'.current
      rw [hsame.current]
      exact h.current.later hlater
    values := fun f x v hv => (hvalues f x v hv).later hlater
    fields := fun id b hb x v hv => (hfields id b hb x v hv).later hlater
    enclosed := fun f e he => by
      rw [hsame.size]
      exact h.enclosed f e ((hsame.enclosing f).symm.trans he)
    opened := fun f o ho => by
      rw [hsame.size]
      exact h.opened f o ho
    once := h.once
    receiver := h.receiver
    bound := fun f g i hb => (h.bound f g i hb).later hlater
    call := fun f e g i he hb => h.call f e g i ((hsame.enclosing f).symm.trans he) hb
    this := fun f v hv => h.this f v ((hsame.hidden f _ (.inl rfl)).symm.trans hv) }

/-- A change that leaves the frames and the objects alone. -/
theorem Same.of_eq {m m' : Machine} (hframes : m'.frames = m.frames)
    (hcurrent : m'.current = m.current) (hfields : m'.fields = m.fields) : Same m m' :=
  ⟨by rw [hframes], hcurrent, fun _ => by rw [hframes], fun _ _ _ => by rw [hframes],
    Nat.le_of_eq (by rw [hfields])⟩

theorem Same.define (m : Machine) (f : FrameId) {x : Token} (hx : x.IsName) (v : Value FrameId) :
    Same m { m with frames := m.frames.define f x.lexeme v } := by
  refine ⟨Store.size_define .., rfl, fun g => Store.enclosing?_define .., fun g y hy => ?_,
    Nat.le_refl _⟩
  refine Store.get?_define_of_ne _ _ _ _ ?_
  rcases hy with rfl | rfl
  · exact hx.1.symm
  · exact hx.2.symm

/-- Giving a name a value, in whichever frame. -/
theorem Accounted.define (h : n.Accounted) (f : FrameId) {x : Token} (hx : x.IsName)
    {v : Value FrameId} (hv : n.ValueFrom v) :
    Accounted { n with machine :=
      { n.machine with frames := n.machine.frames.define f x.lexeme v } } := by
  refine h.same (.define n.machine f hx v) (fun g y u hu => ?_) h.fields
  rcases Store.get?_define hu with rfl | hu
  · exact hv
  · exact h.values g y u hu

theorem Same.newObject (m : Machine) : Same m { m with fields := m.fields.push .empty } :=
  ⟨rfl, rfl, fun _ => rfl, fun _ _ _ => rfl, by simp⟩

/-- A new object. -/
theorem Accounted.newObject (h : n.Accounted) :
    Accounted { n with machine := { n.machine with fields := n.machine.fields.push .empty } } :=
  h.same (.newObject n.machine) h.values (forall_field_push h.fields)

theorem Same.setField (m : Machine) (id : ObjectId) (x : String) (v : Value FrameId) :
    Same m { m with fields := m.fields.modify id (·.put x v) } :=
  ⟨rfl, rfl, fun _ => rfl, fun _ _ _ => rfl, by simp⟩

/-- Giving a field a value. -/
theorem Accounted.setField (h : n.Accounted) (id : ObjectId) (x : String) {v : Value FrameId}
    (hv : n.ValueFrom v) :
    Accounted { n with machine :=
      { n.machine with fields := n.machine.fields.modify id (·.put x v) } } :=
  h.same (.setField n.machine id x v) h.values (forall_field_put h.fields hv)

theorem Later.enter (n : Noted Entry) (f : FrameId) :
    n.Later { n with machine := { n.machine with current := f } } :=
  ⟨Nat.le_refl _, fun _ _ => rfl, fun _ _ _ _ => rfl, fun _ _ _ => Iff.rfl,
    fun _ _ _ _ => Iff.rfl, fun _ _ hc => hc, Nat.le_refl _⟩

/-- Another frame is current. -/
theorem Accounted.enter (h : n.Accounted) {f : FrameId} (hf : n.Ordinary f) :
    Accounted { n with machine := { n.machine with current := f } } := by
  have hlater := Later.enter n f
  exact {
    current := hf.later hlater
    values := fun g x v hv => (h.values g x v hv).later hlater
    fields := fun id b hb x v hv => (h.fields id b hb x v hv).later hlater
    enclosed := h.enclosed
    opened := h.opened
    once := h.once
    receiver := h.receiver
    bound := fun g c i hb => (h.bound g c i hb).later hlater
    call := h.call
    this := h.this }

/-! ## New entries -/

theorem opened_append {m : Machine} {es : List Entry} {e : Entry} {f : FrameId} {o : Opening} :
    Opened ⟨m, es ++ [e]⟩ f o ↔ Opened ⟨m, es⟩ f o ∨ e.event? = some (.opened f o) := by
  simp only [Opened, journal, List.filterMap_append, List.mem_append]
  refine or_congr_right ?_
  cases he : e.event? <;> simp [he, eq_comm]

theorem bound_append {m : Machine} {es : List Entry} {e : Entry} {f : FrameId}
    {g : Closure FrameId} {i : Value FrameId} :
    Bound ⟨m, es ++ [e]⟩ f g i ↔ Bound ⟨m, es⟩ f g i ∨ e = .bound f g i := by
  simp [Bound, eq_comm]

theorem Declared.append {site : ClassSite} {c : ClassValue FrameId} (h : n.Declared site c)
    {m : Machine} (es : List Entry) : Declared ⟨m, n.notes ++ es⟩ site c :=
  List.mem_append_left es h

end Noted

/-- **An entry that says nothing of frames.** -/
def Entry.Silent (e : Entry) : Prop := ∀ f o, e.event? ≠ some (.opened f o)

namespace Noted

variable {n : Noted Entry}

section Silent

variable {e : Entry} (he : e.Silent)

include he

theorem opened_silent {f : FrameId} {o : Opening} :
    Opened { n with notes := n.notes ++ [e] } f o ↔ n.Opened f o :=
  opened_append.trans (or_iff_left (he f o))

theorem bound_silent {f : FrameId} {g : Closure FrameId} {i : Value FrameId} :
    Bound { n with notes := n.notes ++ [e] } f g i ↔ n.Bound f g i := by
  refine bound_append.trans (or_iff_left ?_)
  rintro rfl
  exact he f _ rfl

theorem Later.note : n.Later { n with notes := n.notes ++ [e] } :=
  ⟨Nat.le_refl _, fun _ _ => rfl, fun _ _ _ _ => rfl, fun _ _ _ => opened_silent he,
    fun _ _ _ _ => bound_silent he, fun _ _ hc => hc.append _, Nat.le_refl _⟩

/-- Such an entry leaves a machine accounted for. -/
theorem Accounted.note (h : n.Accounted) : Accounted { n with notes := n.notes ++ [e] } := by
  have hlater : n.Later { n with notes := n.notes ++ [e] } := .note he
  exact {
    current := h.current.later hlater
    values := fun f x v hv => (h.values f x v hv).later hlater
    fields := fun id b hb x v hv => (h.fields id b hb x v hv).later hlater
    enclosed := h.enclosed
    opened := fun f o ho => h.opened f o ((opened_silent he).mp ho)
    once := fun f o o' ho ho' =>
      h.once f o o' ((opened_silent he).mp ho) ((opened_silent he).mp ho')
    receiver := fun f d ho => by
      obtain ⟨g, i, hb, hd⟩ := h.receiver f d ((opened_silent he).mp ho)
      exact ⟨g, i, (bound_silent he).mpr hb, hd⟩
    bound := fun f g i hb => (h.bound f g i ((bound_silent he).mp hb)).later hlater
    call := fun f e g i hf hb =>
      (opened_silent he).mpr (h.call f e g i hf ((bound_silent he).mp hb))
    this := fun f v hv => by
      obtain ⟨g, hb⟩ := h.this f v hv
      exact ⟨g, (bound_silent he).mpr hb⟩ }

end Silent

/-! ## New frames -/

/-- **A frame may be opened** with an entry, inside another frame and with some bindings. -/
structure Admits (n : Noted Entry) (e : Entry) (o : Opening) (home : FrameId)
    (b : Bindings (Value FrameId)) : Prop where
  event : e.event? = some (.opened n.machine.frames.frames.size o)
  live : home < n.machine.frames.frames.size
  values : ∀ x v, b.get? x = some v → n.ValueFrom v
  call : ∀ g i, n.Bound home g i → o = .call g.decl
  receiver : ∀ d, o = .receiver d →
    ∃ g i, e = .bound n.machine.frames.frames.size g i ∧ g.decl = d
  this : ∀ v, b.get? thisName = some v → ∃ g, e = .bound n.machine.frames.frames.size g v
  bound : ∀ g i, e = .bound n.machine.frames.frames.size g i →
    home = g.home ∧ b.get? thisName = some i ∧ n.MethodFrom g ∧ ∃ id c, i = .object id c

section Admits

variable {e : Entry} {o : Opening} {home : FrameId} {b : Bindings (Value FrameId)}

/-- The machine with a new frame, and its chronicle with the entry. -/
def opening (n : Noted Entry) (e : Entry) (home : FrameId) (b : Bindings (Value FrameId)) :
    Noted Entry :=
  ⟨{ n.machine with frames := (n.machine.frames.new (some home) b).2 }, n.notes ++ [e]⟩

theorem size_opening (n : Noted Entry) (e : Entry) (home : FrameId)
    (b : Bindings (Value FrameId)) : (n.opening e home b).machine.frames.frames.size =
      n.machine.frames.frames.size + 1 := Store.size_new ..

theorem enclosing?_opening (n : Noted Entry) (e : Entry) (home : FrameId)
    (b : Bindings (Value FrameId)) (f : FrameId) :
    (n.opening e home b).machine.frames.enclosing? f =
      if f = n.machine.frames.frames.size then some home
      else n.machine.frames.enclosing? f := Store.enclosing?_new ..

theorem bindings_opening (n : Noted Entry) (e : Entry) (home : FrameId)
    (b : Bindings (Value FrameId)) (f : FrameId) :
    (n.opening e home b).machine.frames.bindings f =
      if f = n.machine.frames.frames.size then b else n.machine.frames.bindings f :=
  Store.bindings_new ..

theorem Admits.opened_iff (h : n.Admits e o home b) {f : FrameId} {o' : Opening} :
    (n.opening e home b).Opened f o' ↔
      n.Opened f o' ∨ f = n.machine.frames.frames.size ∧ o' = o := by
  refine opened_append.trans (or_congr_right ?_)
  rw [h.event]
  simp [eq_comm]

theorem Admits.bound_iff (h : n.Admits e o home b) {f : FrameId} {g : Closure FrameId}
    {i : Value FrameId} :
    (n.opening e home b).Bound f g i ↔
      n.Bound f g i ∨ f = n.machine.frames.frames.size ∧ e = .bound f g i := by
  refine bound_append.trans (or_congr_right ⟨?_, And.right⟩)
  rintro rfl
  have hevent : some (Event.opened f (.receiver g.decl)) = _ := h.event
  cases hevent
  exact ⟨rfl, rfl⟩

theorem Admits.later (h : n.Admits e o home b) : n.Later (n.opening e home b) where
  size_le := by
    rw [size_opening]
    exact Nat.le_succ _
  enclosing f hf := (enclosing?_opening ..).trans (if_neg (Nat.ne_of_lt hf))
  hidden f hf x _ := by rw [bindings_opening, if_neg (Nat.ne_of_lt hf)]
  opened f hf o' := h.opened_iff.trans (or_iff_left fun hnew => Nat.ne_of_lt hf hnew.1)
  bound f hf g i := h.bound_iff.trans (or_iff_left fun hnew => Nat.ne_of_lt hf hnew.1)
  declared _ _ hc := hc.append _
  fields_le := Nat.le_refl _

/-- **A new frame** leaves a machine accounted for. -/
theorem Admits.accounted (h : n.Admits e o home b) (hn : n.Accounted) :
    (n.opening e home b).Accounted := by
  have hlater := h.later
  exact {
    current := hn.current.later hlater
    values := fun f x v hv => by
      rw [bindings_opening] at hv
      split at hv
      · exact (h.values x v hv).later hlater
      · exact (hn.values f x v hv).later hlater
    fields := fun id b hb x v hv => (hn.fields id b hb x v hv).later hlater
    enclosed := fun f e he => by
      rw [enclosing?_opening] at he
      rw [size_opening]
      split at he
      · cases he
        exact Nat.lt_succ_of_lt h.live
      · exact Nat.lt_succ_of_lt (hn.enclosed f e he)
    opened := fun f o ho => by
      rw [size_opening]
      rcases h.opened_iff.mp ho with ho | ⟨rfl, -⟩
      · exact Nat.lt_succ_of_lt (hn.opened f o ho)
      · exact Nat.lt_succ_self _
    once := fun f o₁ o₂ ho₁ ho₂ => by
      -- of the new frame nothing was said before
      have hfresh : ∀ o, ¬n.Opened n.machine.frames.frames.size o :=
        fun o ho => Nat.lt_irrefl _ (hn.opened _ o ho)
      rcases h.opened_iff.mp ho₁ with ho₁ | ⟨rfl, rfl⟩ <;>
        rcases h.opened_iff.mp ho₂ with ho₂ | ⟨hf, rfl⟩
      · exact hn.once f o₁ o₂ ho₁ ho₂
      · exact absurd (hf ▸ ho₁) (hfresh o₁)
      · exact absurd ho₂ (hfresh o₂)
      · rfl
    receiver := fun f d ho => by
      rcases h.opened_iff.mp ho with ho | ⟨rfl, hd⟩
      · obtain ⟨g, i, hb, hd⟩ := hn.receiver f d ho
        exact ⟨g, i, h.bound_iff.mpr (.inl hb), hd⟩
      · obtain ⟨g, i, hb, hd⟩ := h.receiver d hd.symm
        exact ⟨g, i, h.bound_iff.mpr (.inr ⟨rfl, hb⟩), hd⟩
    bound := fun f g i hb => by
      rcases h.bound_iff.mp hb with hb | ⟨rfl, hb⟩
      · exact (hn.bound f g i hb).later hlater
      · obtain ⟨hhome, hthis, hmethod, hobject⟩ := h.bound g i hb
        refine ⟨?_, ?_, hmethod.later hlater, hobject⟩
        · rw [enclosing?_opening, if_pos rfl, hhome]
        · rw [bindings_opening, if_pos rfl, hthis]
    call := fun f e' g i hf hb => by
      rw [enclosing?_opening] at hf
      split at hf
      · rename_i hnew
        cases hf
        have hb' := (hlater.bound home h.live g i).mp hb
        exact h.opened_iff.mpr (.inr ⟨hnew, (h.call g i hb').symm⟩)
      · have hb' := (hlater.bound e' (hn.enclosed f e' hf) g i).mp hb
        exact h.opened_iff.mpr (.inl (hn.call f e' g i hf hb'))
    this := fun f v hv => by
      rw [bindings_opening] at hv
      split at hv
      · rename_i hnew
        obtain ⟨g, hb⟩ := h.this v hv
        exact ⟨g, h.bound_iff.mpr (.inr ⟨hnew, hnew ▸ hb⟩)⟩
      · obtain ⟨g, hb⟩ := hn.this f v hv
        exact ⟨g, h.bound_iff.mpr (.inl hb)⟩ }

/-- The new frame is one for names of the program, unless it was opened for methods. -/
theorem Admits.ordinary (h : n.Admits e o home b) (hn : n.Accounted)
    (hreceiver : ∀ d, o ≠ .receiver d) (hparent : ∀ site, o ≠ .parent site) :
    (n.opening e home b).Ordinary n.machine.frames.frames.size where
  live := by
    rw [size_opening]
    exact Nat.lt_succ_self _
  unbound g i hb := by
    rcases h.opened_iff.mp hb.opened with ho | ⟨-, ho⟩
    · exact Nat.lt_irrefl _ (hn.opened _ _ ho)
    · exact hreceiver g.decl ho.symm
  notParent site ho := by
    rcases h.opened_iff.mp ho with ho | ⟨-, ho⟩
    · exact Nat.lt_irrefl _ (hn.opened _ _ ho)
    · exact hparent site ho.symm

/-- A new frame that binds a superclass is home to the methods of the class. -/
theorem Admits.homeOf {site : ClassSite} {c : ClassValue FrameId}
    (h : n.Admits e (.parent site) home (.ofList [(superName, .classValue c)]))
    (hn : n.Accounted) :
    (n.opening e home (.ofList [(superName, .classValue c)])).HomeOf
      n.machine.frames.frames.size site (some c) where
  live := by
    rw [size_opening]
    exact Nat.lt_succ_self _
  unbound g i hb := by
    rcases h.opened_iff.mp hb.opened with ho | ⟨-, ho⟩
    · exact Nat.lt_irrefl _ (hn.opened _ _ ho)
    · cases ho
  parent site' ho := by
    rcases h.opened_iff.mp ho with ho | ⟨-, ho⟩
    · exact absurd (hn.opened _ _ ho) (Nat.lt_irrefl _)
    · cases ho
      refine ⟨rfl, c, rfl, ?_⟩
      rw [bindings_opening, if_pos rfl, Bindings.get?_singleton, if_pos rfl]

end Admits

/-- A frame for a block, a call or a class. -/
theorem Admits.ofOpening {o : Opening} {home : FrameId} {b : Bindings (Value FrameId)}
    (hreceiver : ∀ d, o ≠ .receiver d) (hlive : home < n.machine.frames.frames.size)
    (hvalues : ∀ x v, b.get? x = some v → n.ValueFrom v)
    (hcall : ∀ g i, n.Bound home g i → o = .call g.decl) (hthis : b.get? thisName = none) :
    n.Admits (.event (.opened n.machine.frames.frames.size o)) o home b where
  event := rfl
  live := hlive
  values := hvalues
  call := hcall
  receiver d ho := absurd ho (hreceiver d)
  this v hv := by
    rw [hthis] at hv
    cases hv
  bound g i he := by cases he

/-- A frame for the object that a method is bound to. -/
theorem Admits.ofMethod {g : Closure FrameId} (hg : n.MethodFrom g) {this : Value FrameId}
    (hthis : n.ValueFrom this) (hobject : ∃ id c, this = .object id c) :
    n.Admits (.bound n.machine.frames.frames.size g this) (.receiver g.decl) g.home
      (.ofList [(thisName, this)]) where
  event := rfl
  live := hg.live
  values x v hv := by
    obtain ⟨-, rfl⟩ := Bindings.of_get?_singleton hv
    exact hthis
  call g' i hb := absurd hb (hg.unbound g' i)
  receiver d hd := by
    cases hd
    exact ⟨g, this, rfl, rfl⟩
  this v hv := by
    obtain ⟨-, rfl⟩ := Bindings.of_get?_singleton hv
    exact ⟨g, rfl⟩
  bound g' i he := by
    cases he
    exact ⟨rfl, (Bindings.get?_singleton ..).trans (if_pos rfl), hg, hobject⟩

end Noted
end LoxKit
