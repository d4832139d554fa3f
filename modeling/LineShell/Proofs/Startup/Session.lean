import LineShell.Startup.Boot

/-! The session that a shell comes up with. Startup directives only get at its variables and its
aliases; all else is as it was given, and no line was accepted yet. -/

namespace LineShell

theorem Session.applyDirectives_eq (s : Session) (ds : List Directive) :
    ∃ environment aliases, s.applyDirectives ds = { s with environment, aliases } := by
  induction ds generalizing s with
  | nil => exact ⟨s.environment, s.aliases, rfl⟩
  | cons d later ih =>
    obtain ⟨environment, aliases, hlater⟩ := ih (d.apply s)
    refine ⟨environment, aliases, ?_⟩
    rw [Session.applyDirectives, List.foldl_cons, ← Session.applyDirectives, hlater]
    cases d <;> rfl

theorem Boot.session_boot {σ : Type} {host : Host σ} {inv : Invocation} {w : σ} {m : Machine σ}
    {source : Source} (hboot : (boot host inv w).result = .ok (m, source)) :
    (∃ environment aliases, m.session =
      { program := inv.program, pid := inv.pid, environment, aliases,
        history := (prepare host inv (.ofEntries inv.entries) w).1.1,
        directory := inv.directory }) ∧
    m.world = (boot host inv w).world := by
  unfold boot at hboot ⊢
  rcases hsource : Boot.source host inv (prepare host inv (.ofEntries inv.entries) w).2.2 with
    ⟨e | given, w'⟩ <;> simp only [hsource] at hboot ⊢
  · cases hboot
  · obtain ⟨rfl, -⟩ := Prod.mk.inj (Except.ok.inj hboot)
    obtain ⟨environment, aliases, hsession⟩ := Session.applyDirectives_eq
      { program := inv.program, pid := inv.pid, environment := .ofEntries inv.entries,
        history := (prepare host inv (.ofEntries inv.entries) w).1.1, directory := inv.directory }
      (prepare host inv (.ofEntries inv.entries) w).1.2
    exact ⟨⟨environment, aliases, hsession⟩, rfl⟩

end LineShell
