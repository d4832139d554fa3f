import LineShell.Proofs.Builtin.Effect

/-! What builtins leave alone: a handler only prints, and only `exit` can end the session. -/

namespace LineShell

def Event.IsPrint (e : Event) : Prop := ∃ octets, e = .print octets

namespace Machine

variable {σ : Type} {p q : Event → Prop} {m n k : Machine σ}

/-- The second machine comes from the first one by events of some kind, and all is kept that no
command may change. -/
structure Frame (p : Event → Prop) (m n : Machine σ) : Prop where
  program : n.session.program = m.session.program
  pid : n.session.pid = m.session.pid
  history : n.session.history = m.session.history
  lineCount : n.session.lineCount = m.session.lineCount
  events : ∃ new, n.past = new ++ m.past ∧ ∀ e ∈ new, p e

theorem Frame.refl (m : Machine σ) : Frame p m m := ⟨rfl, rfl, rfl, rfl, [], rfl, by simp⟩

theorem Frame.trans (h : Frame p m n) (h' : Frame p n k) : Frame p m k := by
  obtain ⟨new, hnew, hp⟩ := h.events
  obtain ⟨new', hnew', hp'⟩ := h'.events
  refine ⟨h'.program.trans h.program, h'.pid.trans h.pid, h'.history.trans h.history,
    h'.lineCount.trans h.lineCount, new' ++ new, ?_, ?_⟩
  · rw [hnew', hnew, List.append_assoc]
  · exact List.forall_mem_append.2 ⟨hp', hp⟩

theorem Frame.mono (h : Frame p m n) (hpq : ∀ e, p e → q e) : Frame q m n := by
  obtain ⟨new, hnew, hp⟩ := h.events
  exact ⟨h.program, h.pid, h.history, h.lineCount, new, hnew, fun e he => hpq e (hp e he)⟩

theorem frame_of_past (hpast : n.past = m.past) (hprogram : n.session.program = m.session.program)
    (hpid : n.session.pid = m.session.pid) (hhistory : n.session.history = m.session.history)
    (hcount : n.session.lineCount = m.session.lineCount) : Frame p m n :=
  ⟨hprogram, hpid, hhistory, hcount, [], hpast, by simp⟩

theorem frame_ask {α : Type} (question : σ → α × σ) : Frame p m (m.ask question).2 :=
  frame_of_past rfl rfl rfl rfl rfl

theorem frame_print (t : Text) : Frame Event.IsPrint m (m.print t).2 := by
  unfold print
  split
  · exact Frame.refl m
  · exact ⟨rfl, rfl, rfl, rfl, [.print (Utf8.encode t)], rfl, by simp [Event.IsPrint]⟩

theorem print_written {pieces : List Bytes} (h : m.session.sink = .working pieces) (t : Text) :
    (m.print t).1 = .ok () ∧
      (m.print t).2.session.sink.written = m.session.sink.written ++ Utf8.encode t := by
  unfold print
  split
  · next ht =>
    rw [List.isEmpty_iff.1 ht]
    exact ⟨rfl, (List.append_nil _).symm⟩
  · simp [h, Sink.write, Sink.written, update, record]

theorem print_rest {pieces : List Bytes} (h : m.session.sink = .working pieces) (t : Text) :
    ∃ pieces', (m.print t).2.session = { m.session with sink := .working pieces' } ∧
      (m.print t).2.world = m.world := by
  unfold print
  split
  · exact ⟨pieces, by rw [← h], rfl⟩
  · exact ⟨Utf8.encode t :: pieces, by rw [h]; rfl, rfl⟩

end Machine

namespace Builtin

open Machine

variable {σ : Type} {m n : Machine σ}

structure Ordinary (m : Machine σ) (r : Except CommandError Outcome × Machine σ) : Prop where
  frame : Frame Event.IsPrint m r.2
  stays : ∀ status, r.1 ≠ .ok (.exit status)

theorem say_of_working {pieces : List Bytes} (h : m.session.sink = .working pieces)
    (lines : List Text) : say m lines = (.ok (), (m.print (Text.unlines lines)).2) := by
  obtain ⟨hok, -⟩ := print_written h (Text.unlines lines)
  rcases hprint : m.print (Text.unlines lines) with ⟨answer, n⟩
  rw [hprint] at hok
  obtain rfl : answer = .ok () := hok
  rw [say, hprint]

theorem sayAll_written {pieces : List Bytes} (h : m.session.sink = .working pieces)
    (lines : List Text) :
    (sayAll m lines).1 = .ok (.status 0) ∧
      (sayAll m lines).2.session.sink.written =
        m.session.sink.written ++ Utf8.encode (Text.unlines lines) := by
  rw [sayAll, say_of_working h]
  exact ⟨rfl, (print_written h (Text.unlines lines)).2⟩

theorem lasting_frame : Lasting (σ := σ) (Frame Event.IsPrint) where
  refl := Frame.refl
  trans := Frame.trans
  print _ t := frame_print t
  report _ _ _ := frame_of_past rfl rfl rfl rfl rfl
  environment _ _ := frame_of_past rfl rfl rfl rfl rfl
  aliases _ _ := frame_of_past rfl rfl rfl rfl rfl

theorem moving_frame : Lasting.Moving (σ := σ) (Frame Event.IsPrint) where
  ask _ question := frame_ask question
  directory _ _ := frame_of_past rfl rfl rfl rfl rfl

theorem ordinary_handle (host : Host σ) (m : Machine σ) (args : List Text) {b : Builtin}
    (hb : b ≠ .exit) : Ordinary m (b.handle host m args) := by
  have h := settles_handle lasting_frame host m args hb fun _ => moving_frame
  refine ⟨h.led, fun status hexit => ?_⟩
  rcases h.outcome _ hexit with hc | hc <;> cases hc

theorem frame_handle (host : Host σ) (m : Machine σ) (args : List Text) (b : Builtin) :
    Frame Event.IsPrint m (b.handle host m args).2 :=
  led_handle lasting_frame host m args fun _ => moving_frame

end Builtin

end LineShell
