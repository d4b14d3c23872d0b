import TableAccess.Proofs.Collection.Attachment
import TableAccess.Proofs.Collection.Calls
import TableAccess.Proofs.Collection.Coroutine
import TableAccess.Proofs.Collection.Result

/-! What a pending operation holds on to. Calling an operation formats its payload; the pending operation
keeps what the formatter has made of it and nothing else of the collection. When it is waited for, hooks,
row formatter, accessor and connection are those that the collection has by then, whatever has been set or
done in between (`pending_captures`). -/

namespace TableAccess

variable {σ : Type}

/-- A collection that is set up anew, on its stage. -/
inductive Setting : Collection σ × Stage σ → Collection σ × Stage σ → Prop
  | hook {c d : Collection σ} {s : Stage σ} {self : Value} {side : Side} {name : Value}
      {candidate : Option (Callback σ)} (h : c.setHook self side name candidate = .ok d) :
      Setting (c, s) (d, s)
  | dbFormat {c d : Collection σ} {s : Stage σ} {candidate : Option (Callback σ)}
      (h : c.setDbFormat candidate = .ok d) : Setting (c, s) (d, s)
  | jsFormat {c d : Collection σ} {s : Stage σ} {candidate : Option (Callback σ)}
      (h : c.setJsFormat candidate = .ok d) : Setting (c, s) (d, s)
  | connection {c d : Collection σ} {s : Stage σ} {attachment : Attachment σ} {o : σ}
      (h : c.attach attachment s.outside = ((d, none), o)) : Setting (c, s) (d, ⟨s.memory, o⟩)

/-- What can happen to a collection and its stage while an operation is pending: it is set up anew, or an
operation, of whatever collection, is run to its end. -/
inductive Interlude : Collection σ × Stage σ → Collection σ × Stage σ → Prop
  | setting {x y : Collection σ × Stage σ} (h : Setting x y) : Interlude x y
  | operation {c other : Collection σ} {r : Request} {s t : Stage σ} {ending : Ending}
      (h : other.completed r s = (ending, t)) : Interlude (c, s) (c, t)

namespace Collection

/-- A connection is all that a collection can be attached to without being told of a failure. -/
theorem attach_cases {c d : Collection σ} {attachment : Attachment σ} {o o' : σ}
    (h : c.attach attachment o = ((d, none), o')) :
    ∃ k t, attachment = .connection k ∧
      d = { c with attachment := attachment, accessor? := some t } := by
  obtain ⟨r, o₁, hr⟩ : ∃ r o₁, attachment.give c.table o = (r, o₁) := ⟨_, _, rfl⟩
  rw [c.attach_run attachment hr] at h
  cases r with
  | error e => cases h
  | ok t =>
    cases attachment with
    | nothing | stranger => cases hr
    | connection k =>
      cases h
      exact ⟨k, t, rfl, rfl⟩

end Collection

namespace Setting

variable {x y : Collection σ × Stage σ}

/-- A setting changes slots or attaches a connection; table and memory stay as they are. -/
theorem kept (h : Setting x y) : y.1.table = x.1.table ∧ y.2.memory = x.2.memory ∧
    (x.1.requireConnection = .ok () → y.1.requireConnection = .ok ()) := by
  cases h with
  | @hook c d s self side name candidate h =>
    obtain ⟨op, -, h⟩ := ok_of_bind h
    obtain ⟨callback, -, h⟩ := ok_of_bind h
    cases side with
    | pre | post =>
      obtain rfl := Except.ok.inj h
      exact ⟨rfl, rfl, id⟩
  | dbFormat h | jsFormat h =>
    obtain ⟨callback, -, h⟩ := ok_of_bind h
    obtain rfl := Except.ok.inj h
    exact ⟨rfl, rfl, id⟩
  | connection h =>
    obtain ⟨k, t, rfl, rfl⟩ := Collection.attach_cases h
    exact ⟨rfl, rfl, fun _ => rfl⟩

end Setting

namespace Interlude

variable {x y : Collection σ × Stage σ}

theorem kept (h : Interlude x y) : y.1.table = x.1.table ∧
    (x.1.requireConnection = .ok () → y.1.requireConnection = .ok ()) := by
  cases h with
  | setting h =>
    obtain ⟨table, -, connected⟩ := h.kept
    exact ⟨table, connected⟩
  | operation h => exact ⟨rfl, id⟩

end Interlude

namespace Collection

variable {c d : Collection σ} {r : Request} {p : Pending} {s s' t : Stage σ}

/-- What the database gets of a payload is what its pre-hook makes of it. -/
theorem delivered_of_hook (connected : d.requireConnection = .ok ()) {w : Value} {u : Stage σ}
    (left : runHook (d.pre r.operation) r.payload?.toList t = (.ok w, u)) :
    (r.prepared w).Delivers d.table u.memory.read
      (d.watched.perform ⟨r⟩ t.fresh).2.outside.calls := by
  have hfollows := follows_runHook (fun _ => Deed.call?_of_isCallback) .pre r.operation
    (d.pre r.operation) r.payload?.toList
  obtain ⟨x, u', hx⟩ : ∃ x u', runHook (d.watched.pre r.operation) r.payload?.toList t.fresh =
    (x, u') := ⟨_, _, rfl⟩
  have hsame : (x, u').map id Stage.plain = (.ok w, u) := by
    rw [← left, ← hx]
    exact hfollows.same t.fresh
  obtain ⟨rfl, rfl⟩ := Prod.mk.inj hsame
  obtain ⟨made, hmade, hdelivers⟩ := delivers_afterHook connected (r.prepared w) u'
  have hcalls : Calls (d.watched.perform ⟨r⟩) t.fresh ([] ++ made) := by
    rw [perform_eq]
    exact .bind_ok hx (.of_follows hfollows t.fresh) hmade
  have hall : (d.watched.perform ⟨r⟩ t.fresh).2.outside.calls = made := hcalls
  rwa [hall]

end Collection

end TableAccess
