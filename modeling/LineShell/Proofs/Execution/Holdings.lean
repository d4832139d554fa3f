import LineShell.Proofs.Builtin.Holdings
import LineShell.Proofs.Execution.Visit
import LineShell.Proofs.Text.Trim

/-! What a line does to the variables and to the aliases. Programs and refusals do nothing to them,
so all of it is what builtins do on the way. -/

namespace LineShell

open Environment (Operation)

/-- Some operations on the variables and some definitions of aliases lead from one to the other.
Each definition is a word. -/
def Holdings.Leads (h h' : Holdings) : Prop :=
  ∃ (ops : List Operation) (given : List Text), (∀ arg ∈ given, Text.Word arg) ∧
    h' = { environment := h.environment.run ops
           aliases := given.foldl Builtin.define h.aliases }

namespace Holdings

theorem Leads.refl (h : Holdings) : Leads h h := ⟨[], [], by simp, rfl⟩

theorem Leads.trans {h₁ h₂ h₃ : Holdings} (h : Leads h₁ h₂) (h' : Leads h₂ h₃) : Leads h₁ h₃ := by
  obtain ⟨ops, given, hgiven, rfl⟩ := h
  obtain ⟨ops', given', hgiven', rfl⟩ := h'
  refine ⟨ops ++ ops', given ++ given', List.forall_mem_append.2 ⟨hgiven, hgiven'⟩, ?_⟩
  rw [Environment.run_append, List.foldl_append]

end Holdings

namespace Machine

open Holdings

variable {σ : Type} {host : Host σ} {m : Machine σ}

theorem leads_run (host : Host σ) (m : Machine σ) (b : Builtin) {args : List Text}
    (hargs : ∀ arg ∈ args, Text.Word arg) :
    Leads m.session.holdings (b.run host m args).2.session.holdings := by
  obtain ⟨given, hgiven, h⟩ := Builtin.holdings_handle host (m.record (.call b args)) args b
  exact ⟨_, given, fun arg harg => hargs arg (hgiven.subset harg), h⟩

theorem leads_runBuiltin (host : Host σ) (m : Machine σ) (b : Builtin) {args : List Text}
    (hargs : ∀ arg ∈ args, Text.Word arg) :
    Leads m.session.holdings (runBuiltin host m b args).2.session.holdings := by
  have h := leads_run host m b hargs
  unfold runBuiltin
  split <;> rename_i hrun <;> rw [hrun] at h <;> exact h

theorem holdings_runProgram (host : Host σ) (m : Machine σ) (program : Path) (name : Text)
    (args : List Text) :
    (runProgram host m program name args).2.session.holdings = m.session.holdings := by
  obtain ⟨sink, hspawn⟩ := spawn_machine host m program (name :: args)
  have h := congrArg (·.session.holdings) hspawn
  unfold runProgram
  split <;> rename_i hanswer <;> rw [hanswer] at h <;> exact h

theorem leads_runCommand (host : Host σ) (m : Machine σ) (name : Text) {args : List Text}
    (hargs : ∀ arg ∈ args, Text.Word arg) :
    Leads m.session.holdings (runCommand host m name args).2.session.holdings := by
  rcases runCommand_cases host m name args with
    ⟨b, -, h⟩ | ⟨-, ⟨program, h⟩ | ⟨message, status, h⟩⟩ <;> rw [h]
  · exact leads_runBuiltin host (resolved host m name) b hargs
  · rw [holdings_runProgram]
    exact Leads.refl m.session.holdings
  · exact Leads.refl m.session.holdings

theorem leads_runText (host : Host σ) (m : Machine σ) (t : Text) :
    Leads m.session.holdings (runText host m t).2.session.holdings := by
  cases h : m.argv t with
  | nil =>
    rw [runText_blank h]
    exact Leads.refl m.session.holdings
  | cons name args =>
    rw [runText_command h]
    have hwords : Text.words (m.expander.expand t) = name :: args := h
    exact leads_runCommand host m name fun arg harg =>
      Text.word_of_mem_words (hwords ▸ List.mem_cons_of_mem name harg)

theorem leads_runLine (host : Host σ) (m : Machine σ) (line : Text) :
    Leads m.session.holdings (runLine host m line).2.session.holdings :=
  runChain_keeps (R := fun m n => Leads m.session.holdings n.session.holdings)
    (fun m => Leads.refl m.session.holdings) (fun _ _ _ => Leads.trans) (leads_runText host) m
    (Chain.parse line)

end Machine

end LineShell
