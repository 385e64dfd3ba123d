import Mathlib.Logic.Relation

/-! Contracts among arbitrary code, which runs in nested frames; a frame that reverts restores the
world in which it began. A function of a contract that calls out waits in its frame while the called
code runs, which may call the contract again. -/
namespace CallStack

universe u v

/-- A frame of arbitrary code, or of a function `k` of the contract that waits for its call. A call
that fails restores the world of the call. -/
inductive Frame (σ : Type u) (κ : Type v) where
  | code (start : σ)
  | waiting (start atCall : σ) (k : κ)

def Frame.start {σ : Type u} {κ : Type v} : Frame σ κ → σ
  | code start => start
  | waiting start _ _ => start

def Frame.waits {σ : Type u} {κ : Type v} : Frame σ κ → Option κ
  | code _ => none
  | waiting _ _ k => some k

structure State (σ : Type u) (κ : Type v) where
  world : σ
  frames : List (Frame σ κ)

variable {σ : Type u} {κ : Type v}

def State.waiting (s : State σ κ) : List κ := s.frames.filterMap Frame.waits

/-- `act` is a function that returns at once, `call` a function up to its call (with the worlds
before and after value is transferred), `ret` the rest of that function, and `idle` what happens
between transactions. -/
structure Contract (σ : Type u) (κ : Type v) where
  idle : σ → σ → Prop
  act : σ → σ → Prop
  call : κ → σ → σ → σ → Prop
  ret : κ → Bool → σ → σ → Prop

variable (c : Contract σ κ)

inductive Step : State σ κ → State σ κ → Prop
  | idle {w w' : σ} (h : c.idle w w') : Step ⟨w, []⟩ ⟨w', []⟩
  | enter {w : σ} {fs : List (Frame σ κ)} : Step ⟨w, fs⟩ ⟨w, .code w :: fs⟩
  | leave {w start : σ} {fs : List (Frame σ κ)} : Step ⟨w, .code start :: fs⟩ ⟨w, fs⟩
  | act {w w' : σ} {f : Frame σ κ} {fs : List (Frame σ κ)} (h : c.act w w') :
      Step ⟨w, f :: fs⟩ ⟨w', f :: fs⟩
  | call {w atCall w' : σ} {f : Frame σ κ} {fs : List (Frame σ κ)} {k : κ}
      (h : c.call k w atCall w') : Step ⟨w, f :: fs⟩ ⟨w', .waiting w atCall k :: f :: fs⟩
  | returned {w start atCall w' : σ} {fs : List (Frame σ κ)} {k : κ} (h : c.ret k true w w') :
      Step ⟨w, .waiting start atCall k :: fs⟩ ⟨w', fs⟩
  | failed {w start atCall w' : σ} {fs : List (Frame σ κ)} {k : κ} (h : c.ret k false atCall w') :
      Step ⟨w, .waiting start atCall k :: fs⟩ ⟨w', fs⟩
  | revert {w : σ} {f : Frame σ κ} {fs : List (Frame σ κ)} : Step ⟨w, f :: fs⟩ ⟨f.start, fs⟩

/-- The states of runs from a world between transactions, all of whose worlds are as assumed. -/
def Reachable (Assumed : σ → Prop) (init : σ) : State σ κ → Prop :=
  Relation.ReflTransGen (fun s s' => Step c s s' ∧ Assumed s'.world) ⟨init, []⟩

structure Contract.Keeps (Assumed : σ → Prop) (Inv : List κ → σ → Prop) : Prop where
  idle : ∀ {w w'}, Assumed w → Inv [] w → c.idle w w' → Inv [] w'
  act : ∀ {ks w w'}, Assumed w → Inv ks w → c.act w w' → Inv ks w'
  call : ∀ {ks k w atCall w'}, Assumed w → Inv ks w → c.call k w atCall w' → Inv (k :: ks) w'
  returned : ∀ {ks k w w'}, Inv (k :: ks) w → c.ret k true w w' → Inv ks w'
  failed : ∀ {ks k w atCall inside w'}, Assumed w → Inv ks w → c.call k w atCall inside →
    c.ret k false atCall w' → Inv ks w'

def Restorable (Assumed : σ → Prop) (Inv : List κ → σ → Prop) : List (Frame σ κ) → Prop
  | [] => True
  | f :: fs => Inv (fs.filterMap Frame.waits) f.start ∧ Restorable Assumed Inv fs ∧
    ∀ start atCall k, f = .waiting start atCall k →
      Assumed start ∧ ∃ inside, c.call k start atCall inside

variable {c} {Assumed : σ → Prop} {Inv : List κ → σ → Prop}

theorem Contract.Keeps.step (hkeeps : c.Keeps Assumed Inv) {s s' : State σ κ}
    (hassumed : Assumed s.world) (hinv : Inv s.waiting s.world)
    (hrestorable : Restorable c Assumed Inv s.frames) (h : Step c s s') :
    Inv s'.waiting s'.world ∧ Restorable c Assumed Inv s'.frames := by
  cases h with
  | idle h => exact ⟨hkeeps.idle hassumed hinv h, trivial⟩
  | enter => exact ⟨hinv, hinv, hrestorable, fun _ _ _ heq => by cases heq⟩
  | leave => exact ⟨hinv, hrestorable.2.1⟩
  | act h => exact ⟨hkeeps.act hassumed hinv h, hrestorable⟩
  | call h =>
    refine ⟨hkeeps.call hassumed hinv h, hinv, hrestorable, ?_⟩
    intro start atCall k heq
    cases heq
    exact ⟨hassumed, _, h⟩
  | returned h => exact ⟨hkeeps.returned hinv h, hrestorable.2.1⟩
  | failed h =>
    obtain ⟨hstart, hrest, hwaiting⟩ := hrestorable
    obtain ⟨hbefore, inside, hcall⟩ := hwaiting _ _ _ rfl
    exact ⟨hkeeps.failed hbefore hstart hcall h, hrest⟩
  | revert => exact ⟨hrestorable.1, hrestorable.2.1⟩

theorem Reachable.invariant (hkeeps : c.Keeps Assumed Inv) {init : σ} (hassumed : Assumed init)
    (hinit : Inv [] init) {s : State σ κ} (h : Reachable c Assumed init s) :
    Inv s.waiting s.world := by
  have hall : Assumed s.world ∧ Inv s.waiting s.world ∧ Restorable c Assumed Inv s.frames := by
    induction h with
    | refl => exact ⟨hassumed, hinit, trivial⟩
    | tail _ hstep ih =>
      obtain ⟨hbefore, hinv, hrestorable⟩ := ih
      exact ⟨hstep.2, hkeeps.step hbefore hinv hrestorable hstep.1⟩
  exact hall.2.1

end CallStack
