import LineShell.Proofs.Builtin.Muting
import LineShell.Proofs.Execution.Visit

/-! A line on which no builtin prints does not depend on the sink. A broken one fails when programs
are launched as well, but nobody takes notice of that. -/

namespace LineShell

instance (e : Event) : Decidable e.IsPrint :=
  match e with
  | .print octets => .isTrue ⟨octets, rfl⟩
  | .call _ _ | .flush | .launch _ | .persist => .isFalse fun ⟨_, h⟩ => nomatch h

namespace Machine

variable {σ : Type} {host : Host σ} {m n k : Machine σ}

def Quiet (m n : Machine σ) : Prop := ∃ new, n.past = new ++ m.past ∧ ∀ e ∈ new, ¬ e.IsPrint

theorem Quiet.split (h : Quiet m k) (hmn : m.past <:+ n.past) (hnk : n.past <:+ k.past) :
    Quiet m n ∧ Quiet n k := by
  obtain ⟨new, hnew, hquiet⟩ := h
  obtain ⟨first, hfirst⟩ := hmn
  obtain ⟨second, hsecond⟩ := hnk
  obtain rfl : second ++ first = new := by
    rw [← hsecond, ← hfirst, ← List.append_assoc] at hnew
    exact List.append_cancel_right hnew
  obtain ⟨hquiet₂, hquiet₁⟩ := List.forall_mem_append.1 hquiet
  exact ⟨⟨first, hfirst.symm, hquiet₁⟩, ⟨second, hsecond.symm, hquiet₂⟩⟩

theorem Quiet.past_eq (h : Quiet m n) (hframe : Frame Event.IsPrint m n) : n.past = m.past := by
  obtain ⟨new, hnew, hquiet⟩ := h
  obtain ⟨printed, hprinted, hprint⟩ := hframe.events
  obtain rfl : new = printed := List.append_cancel_right (hnew.symm.trans hprinted)
  have hnil : new = [] := List.eq_nil_iff_forall_not_mem.2 fun e he => hquiet e he (hprint e he)
  rw [hnew, hnil, List.nil_append]

variable (cause : IoError)

theorem ask_muted {α : Type} (m : Machine σ) (question : σ → α × σ) :
    (m.muted cause).ask question = ((m.ask question).1, (m.ask question).2.muted cause) := rfl

theorem runBuiltin_muted (b : Builtin) (args : List Text)
    (h : Quiet m (runBuiltin host m b args).2) :
    runBuiltin host (m.muted cause) b args =
      ((runBuiltin host m b args).1, (runBuiltin host m b args).2.muted cause) := by
  have hframe := Builtin.frame_handle host (m.record (.call b args)) args b
  have hhandle := Builtin.unheard_handle host cause (m.record (.call b args)) args b
  rw [← Builtin.run] at hframe
  have hquiet : Quiet m (b.run host m args).2 := by
    unfold runBuiltin at h
    split at h <;> rename_i hrun <;> rw [hrun] <;> exact h
  have hcall : m.past <:+ (m.record (.call b args)).past := List.suffix_cons _ _
  have hpast := (hquiet.split hcall hframe.suffix).2.past_eq hframe
  have hrun : b.run host (m.muted cause) args =
      ((b.run host m args).1, (b.run host m args).2.muted cause) := hhandle hpast
  rw [runBuiltin, hrun, runBuiltin]
  rcases b.run host m args with ⟨e | status | status, n⟩ <;> rfl

theorem spawn_muted (host : Host σ) (m : Machine σ) (program : Path) (argv : List Text) :
    (m.muted cause).spawn host program argv =
      ((m.spawn host program argv).1, (m.spawn host program argv).2.muted cause) := by
  have hrequest : (m.muted cause).request program argv = m.request program argv := rfl
  rcases h : host.launch (m.request program argv) m.world with ⟨e | ⟨status, output⟩, w⟩
  · simp only [spawn, hrequest, ask, flush, record, muted_world, h]
    rfl
  · simp only [spawn, hrequest, ask, flush, record, muted_world, h]
    rfl

theorem runProgram_muted (host : Host σ) (m : Machine σ) (program : Path) (name : Text)
    (args : List Text) :
    runProgram host (m.muted cause) program name args =
      ((runProgram host m program name args).1,
        (runProgram host m program name args).2.muted cause) := by
  rw [runProgram, spawn_muted, runProgram]
  rcases m.spawn host program (name :: args) with ⟨e | code, n⟩ <;> rfl

theorem runCommand_muted (name : Text) (args : List Text)
    (h : Quiet m (runCommand host m name args).2) :
    runCommand host (m.muted cause) name args =
      ((runCommand host m name args).1, (runCommand host m name args).2.muted cause) := by
  have hresolved : Quiet (resolved host m name) (runCommand host m name args).2 := h
  simp only [runCommand, resolved, muted_environment, muted_directory, ask_muted] at hresolved ⊢
  rcases hask : m.ask (Resolution.resolve host m.session.environment m.session.directory name)
    with ⟨b | program | _ | _, n⟩ <;> rw [hask] at hresolved
  · exact runBuiltin_muted cause b args hresolved
  · exact runProgram_muted cause host n program name args
  · rfl
  · rfl

theorem runText_muted (t : Text) (h : Quiet m (runText host m t).2) :
    runText host (m.muted cause) t =
      ((runText host m t).1, (runText host m t).2.muted cause) := by
  have hargv : (m.muted cause).argv t = m.argv t := rfl
  cases hm : m.argv t with
  | nil => rw [runText_blank hm, runText_blank (hargv.trans hm)]
  | cons name args =>
    rw [runText_command hm] at h
    rw [runText_command hm, runText_command (hargv.trans hm)]
    exact runCommand_muted cause name args h

end Machine

def Visit.muted {σ : Type} (v : Visit σ) (cause : IoError) : Visit σ :=
  { v with before := v.before.muted cause, after := v.after.muted cause }

namespace Machine

variable {σ : Type} {host : Host σ} {m : Machine σ}

theorem runChain_muted (cause : IoError) (chain : Chain) (position : Nat)
    (h : Quiet m (runChain host m chain).2) :
    runChain host (m.muted cause) chain =
        ((runChain host m chain).1, (runChain host m chain).2.muted cause) ∧
      visits host (m.muted cause) position chain =
        (visits host m position chain).map (·.muted cause) := by
  induction chain generalizing m position with
  | nil => exact ⟨rfl, rfl⟩
  | cons link later ih =>
    have hargv : (m.muted cause).argv link.text = m.argv link.text := rfl
    have htext := @runText_muted σ host m cause link.text
    have hgrows := (ran_runText host m link.text).frame.suffix
    rw [runChain_cons, runLink, visits, muted_status, hargv]
    rcases visits_cases host m position link later with
      ⟨hskip, hrun, hvisits⟩ |
      ⟨hadmits, ⟨status, after, hlink, hrun, hvisits⟩ | ⟨after, hlink, hrun, hvisits⟩⟩ <;>
      rw [hrun] at h ⊢ <;> rw [hvisits]
    · rw [hskip]
      exact ih (position + 1) h
    · rw [hlink] at htext
      rw [hadmits, if_pos rfl, if_pos rfl, htext h]
      exact ⟨rfl, rfl⟩
    · rw [hlink] at htext hgrows
      obtain ⟨hfirst, hlater⟩ := h.split hgrows (frame_runChain host after later).suffix
      obtain ⟨hchain, hwalk⟩ := ih (position + 1) hlater
      rw [hadmits, if_pos rfl, if_pos rfl, htext hfirst]
      exact ⟨hchain, congrArg (_ :: ·) hwalk⟩

/-- A line on which no builtin prints does the same with a broken sink as with any other: the same
links are run, with the same words, variables and directory and to the same end, the same builtins
and programs are started, and in the end the two sessions differ in their sinks only. -/
theorem runLine_muted (host : Host σ) (m : Machine σ) (line : Text) (cause : IoError)
    (h : Quiet m (runLine host m line).2) :
    runLine host (m.muted cause) line =
        ((runLine host m line).1, (runLine host m line).2.muted cause) ∧
      visits host (m.muted cause) 0 (Chain.parse line) =
        (visits host m 0 (Chain.parse line)).map (·.muted cause) :=
  runChain_muted cause (Chain.parse line) 0 h

end Machine

def Host.talkative : Host Unit :=
  { Host.void with
    isExecutable := fun _ w => (true, w)
    launch := fun _ w => (.ok (⟨768⟩, Utf8.encode "hi".toList), w) }

namespace Machine

theorem runLine_muted_talkative :
    let line := "alias b=c ; ./tool x || setenv A $? ; alias d".toList
    let cause := IoError.other "broken pipe".toList
    let working := runLine Host.talkative idle line
    let broken := runLine Host.talkative (idle.muted cause) line
    working.2.session.sink.written = Utf8.encode "hi".toList ∧
      broken.2.session.sink.written = [] ∧
      broken.1 = working.1 ∧ broken.2.past = working.2.past ∧
      broken.2.session = { working.2.session with sink := .broken cause } := by
  intro line cause working broken
  have hquiet : Quiet idle working.2 := ⟨working.2.past, (List.append_nil _).symm, by decide⟩
  have hbroken : broken = (working.1, working.2.muted cause) :=
    (runLine_muted Host.talkative idle line cause hquiet).1
  rw [hbroken]
  exact ⟨by decide, rfl, rfl, rfl, rfl⟩

example : (runLine Host.void (idle.muted (.other "broken pipe".toList))
    "help || exit 3".toList).1 = .exit 3 := by
  decide

end Machine

end LineShell
