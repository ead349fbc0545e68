import Cci.Cfg.Closure

/-!
# The four dispatches

`pre_write_callback`, `post_write_callback`, `pre_read_callback` and `post_read_callback`, taken
together.

* `DispatchCall` — one of them with its arguments; its list, event, result and loop body.
-/

namespace Cci

open Effect CciParamTyped

variable {D : Design} {B : Type}

/-- A dispatch of one of the four lists of `p`. -/
inductive DispatchCall (D : Design) (p : D.Param) where
  | preWrite (value : D.Value p) (originator : CciOriginator) : DispatchCall D p
  | postWrite (oldValue newValue : D.Value p) (originator : CciOriginator) : DispatchCall D p
  | preRead (originator : CciOriginator) : DispatchCall D p
  | postRead (originator : CciOriginator) : DispatchCall D p

namespace DispatchCall

variable {p : D.Param}

def kind : DispatchCall D p → CallbackKind
  | preWrite .. => .preWrite
  | postWrite .. => .postWrite
  | preRead .. => .preRead
  | postRead .. => .postRead

/-- What the dispatch answers. -/
def Result : DispatchCall D p → Type
  | preWrite .. => Bool
  | _ => Unit

/-- The result before the first entry. -/
def init : (c : DispatchCall D p) → c.Result
  | preWrite .. => true
  | postWrite .. | preRead .. | postRead .. => ()

/-- The event an entry is told. -/
def event : DispatchCall D p → CciParam (D.Value p) → CallbackObj → ParamEvent (D.Value p)
  | preWrite value originator, q, entry => .write q.mValue value originator entry.originator
  | postWrite oldValue newValue originator, _, entry =>
      .write oldValue newValue originator entry.originator
  | preRead originator, q, entry | postRead originator, q, entry =>
      .read q.mValue originator entry.originator

/-- The member function. -/
def run (I : Interp D B) : (c : DispatchCall D p) → CciM D B c.Result
  | preWrite value originator => preWriteCallback I p value originator
  | postWrite oldValue newValue originator => postWriteCallback I p oldValue newValue originator
  | preRead originator => preReadCallback I p originator
  | postRead originator => postReadCallback I p originator

/-- The body of its loop. -/
def act (I : Interp D B) : (c : DispatchCall D p) → CallbackObj → c.Result → CciM D B c.Result
  | preWrite value originator => preWriteEntry I p value originator
  | postWrite oldValue newValue originator =>
      observerEntry I p .postWrite fun _ entry => .write oldValue newValue originator entry.originator
  | preRead originator =>
      observerEntry I p .preRead fun q entry => .read q.mValue originator entry.originator
  | postRead originator =>
      observerEntry I p .postRead fun q entry => .read q.mValue originator entry.originator

theorem run_open (I : Interp D B) (c : DispatchCall D p) {w : World D B}
    (hg : (w.param p).oncall c.kind = false) : c.run I w = dispatch I p c.kind (c.act I) c.init w := by
  cases c with
  | preWrite value originator => exact guarded_open hg
  | postWrite oldValue newValue originator => exact guarded_open hg
  | preRead originator => exact guarded_open hg
  | postRead originator => exact guarded_open hg

end DispatchCall

end Cci
