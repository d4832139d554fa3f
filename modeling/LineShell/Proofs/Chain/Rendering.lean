import LineShell.Proofs.Chain.Joining

/-! Writing a chain as a line. Parsing gives back the chains that are written without loss, and
every chain that parsing gives is one of these unless a text in it begins with a number sign. -/

namespace LineShell.Chain

open Text

/-- A text that stands for one command wherever it is written between blanks. -/
structure IsCommand (t : Text) : Prop where
  shown : t ≠ []
  trimmed : Trimmed t
  operatorFree : OperatorFree t
  commentFree : CommentFree t

structure Canonical (c : Chain) : Prop where
  first : ∀ link ∈ c.head?, link.operator = .first
  later : ∀ link ∈ c.tail, link.operator ≠ .first
  commands : ∀ link ∈ c, IsCommand link.text

def renderLater (c : Chain) : Text := c.flatMap fun link => link.operator.joint ++ link.text

def render : Chain → Text
  | [] => []
  | link :: later => link.text ++ renderLater later

theorem isCommand_iff {t : Text} :
    IsCommand t ↔ t ≠ [] ∧ Trimmed t ∧ OperatorFree t ∧ CommentFree t :=
  ⟨fun h => ⟨h.shown, h.trimmed, h.operatorFree, h.commentFree⟩,
    fun ⟨hshown, htrimmed, hoperator, hcomment⟩ => ⟨hshown, htrimmed, hoperator, hcomment⟩⟩

instance (t : Text) : Decidable (IsCommand t) := decidable_of_iff' _ isCommand_iff

theorem canonical_cons {link : Link} {later : Chain} :
    Canonical (link :: later) ↔ link.operator = .first ∧ IsCommand link.text ∧
      ∀ next ∈ later, next.operator ≠ .first ∧ IsCommand next.text := by
  constructor
  · rintro ⟨hfirst, hlater, hcommands⟩
    obtain ⟨hcommand, hnext⟩ := List.forall_mem_cons.1 hcommands
    exact ⟨hfirst link rfl, hcommand, fun next h => ⟨hlater next h, hnext next h⟩⟩
  · rintro ⟨hfirst, hcommand, hnext⟩
    constructor
    · intro first h
      rwa [← Option.some.inj h]
    · exact fun next h => (hnext next h).1
    · exact List.forall_mem_cons.2 ⟨hcommand, fun next h => (hnext next h).2⟩

theorem canonical_nil : Canonical [] := by
  constructor <;> intro link h <;> cases h

instance (c : Chain) : Decidable (Canonical c) :=
  match c with
  | [] => .isTrue canonical_nil
  | _ :: _ => decidable_of_iff' _ canonical_cons

theorem linksAfter_command {t : Text} (ht : IsCommand t) (o : Operator) :
    linksAfter o t = [⟨o, t⟩] := by
  have hcomment : stripComment t = t := commentFree_iff.1 ht.commentFree
  have hblank : ¬ Blank t := by
    rw [← trim_eq_nil, ht.trimmed.trim_eq]
    exact ht.shown
  rw [linksAfter, hcomment, split_of_free ht.operatorFree, keep_cons_shown hblank,
    ht.trimmed.trim_eq]
  rfl

theorem linksAfter_renderLater {t : Text} (ht : IsCommand t) (o : Operator) {later : Chain}
    (h : ∀ next ∈ later, next.operator ≠ .first ∧ IsCommand next.text) :
    linksAfter o (t ++ renderLater later) = ⟨o, t⟩ :: later := by
  -- what has been rendered so far is one command, with the operator that is pending before it
  induction later generalizing o t with
  | nil =>
    rw [renderLater, List.flatMap_nil, List.append_nil]
    exact linksAfter_command ht o
  | cons next rest ih =>
    obtain ⟨⟨hoperator, hcommand⟩, hrest⟩ := List.forall_mem_cons.1 h
    have hrender : t ++ renderLater (next :: rest) =
        t ++ next.operator.joint ++ (next.text ++ renderLater rest) := by
      simp only [renderLater, List.flatMap_cons, List.append_assoc]
    rw [hrender, linksAfter_append_joint o ht.commentFree hoperator, linksAfter_command ht,
      ih hcommand next.operator hrest]
    rfl

theorem parse_render_of_canonical {c : Chain} (h : Canonical c) : parse (render c) = c := by
  cases c with
  | nil => rfl
  | cons link later =>
    obtain ⟨hfirst, hcommand, hlater⟩ := canonical_cons.1 h
    have hlinks := linksAfter_renderLater hcommand .first hlater
    rw [render, ← markFirst_linksAfter .first, hlinks, markFirst, ← hfirst]

theorem canonical_parse_iff {line : Text} :
    Canonical (parse line) ↔ ∀ link ∈ parse line, link.text.head? ≠ some '#' := by
  constructor
  · intro h link hlink hhead
    obtain ⟨r, hr⟩ := List.head?_eq_some_iff.1 hhead
    obtain ⟨c, hc, -⟩ := (h.commands link hlink).commentFree [] r hr
    cases hc
  · intro h
    constructor
    · intro link hlink
      rw [List.head?_eq_getElem?, Option.mem_def] at hlink
      exact (operator_eq_first_iff hlink).2 rfl
    · intro link hlink hoperator
      obtain ⟨i, hi⟩ := List.getElem?_of_mem hlink
      rw [List.getElem?_tail] at hi
      exact absurd ((operator_eq_first_iff hi).1 hoperator) (Nat.succ_ne_zero i)
    · intro link hlink
      -- a number sign inside the text stands behind the same character as it did in the line
      have htext := isLinkText_of_mem hlink
      have hfree := commentFree_stripComment line
      have hcomment := commentFree_of_infix hfree htext.isInfix (h link hlink)
      exact ⟨htext.shown, htext.trimmed, htext.free, hcomment⟩

/-- A chain is read back from the line that it is written as, and so is the chain of any line in
which no command begins with a number sign. -/
theorem parse_render :
    (∀ c : Chain, Canonical c → parse (render c) = c) ∧
    ∀ line : Text, (∀ link ∈ parse line, link.text.head? ≠ some '#') →
      Canonical (parse line) ∧ parse (render (parse line)) = parse line := by
  refine ⟨fun c h => parse_render_of_canonical h, fun line hline => ?_⟩
  have hcanonical : Canonical (parse line) := canonical_parse_iff.2 hline
  exact ⟨hcanonical, parse_render_of_canonical hcanonical⟩

theorem parse_render_lone_bars :
    parse (render [⟨.first, "| a#b &".toList⟩, ⟨.and, "& |".toList⟩, ⟨.or, "|".toList⟩]) =
      [⟨.first, "| a#b &".toList⟩, ⟨.and, "& |".toList⟩, ⟨.or, "|".toList⟩] ∧
    Canonical (parse "a &&& b#c ||| d;; # e".toList) ∧
    parse (render (parse "a &&& b#c ||| d;; # e".toList)) = parse "a &&& b#c ||| d;; # e".toList :=
  ⟨parse_render.1 _ (by decide), parse_render.2 _ (by decide)⟩

end LineShell.Chain
