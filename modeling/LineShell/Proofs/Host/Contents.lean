import LineShell.Host
import LineShell.Proofs.Text.Encoding

/-! Files whose contents are known: what was written as text is there to be read as that text. -/

namespace LineShell

variable {σ : Type}

namespace Host

structure Holds (host : Host σ) (path : Path) (data : Bytes) (w : σ) : Prop where
  present : (host.isPresent path w).1 = true
  contents : (host.read path (host.isPresent path w).2).1 = .ok { data }

def Reads (host : Host σ) (path : Path) (t : Text) (w : σ) : Prop :=
  ∃ data, host.Holds path data w ∧ Utf8.decode? data = some t

theorem Holds.answers {host : Host σ} {path : Path} {data : Bytes} {w : σ}
    (h : host.Holds path data w) :
    ∃ w₁ w₂, host.isPresent path w = (true, w₁) ∧ host.read path w₁ = (.ok { data }, w₂) :=
  ⟨_, _, Prod.ext h.present rfl, Prod.ext h.contents rfl⟩

theorem Holds.reads {host : Host σ} {path : Path} {t : Text} {w : σ}
    (h : host.Holds path (Utf8.encode t) w) : host.Reads path t w :=
  ⟨Utf8.encode t, h, Utf8.decode?_encode t⟩

theorem Holds.unique {host : Host σ} {path : Path} {data data' : Bytes} {w : σ}
    (h : host.Holds path data w) (h' : host.Holds path data' w) : data = data' :=
  (Stream.mk.inj (Except.ok.inj (h.contents.symm.trans h'.contents))).1

theorem Reads.unique {host : Host σ} {path : Path} {t u : Text} {w : σ}
    (ht : host.Reads path t w) (hu : host.Reads path u w) : t = u := by
  obtain ⟨data, hdata, hdecode⟩ := ht
  obtain ⟨data', hdata', hdecode'⟩ := hu
  rw [hdata.unique hdata', hdecode'] at hdecode
  exact (Option.some.inj hdecode).symm

def Keeps (host : Host σ) (path : Path) (w : σ) : Prop :=
  ∀ data w', host.save path data w = (.ok (), w') → host.Holds path data w'

/-- A world of one file, which is there once it was written, and nothing else. -/
def notebook (path : Path) : Host (Option Bytes) where
  isPresent p w := (p == path && w.isSome, w)
  isExecutable _ w := (false, w)
  isSearchable _ w := (false, w)
  canonicalize _ w := (none, w)
  list _ w := (none, w)
  read p w :=
    match w with
    | some data => (if p = path then .ok { data } else .error (.system .noSuchFile), w)
    | none => (.error (.system .noSuchFile), w)
  save p data w :=
    if p = path then (.ok (), some data) else (.error (.system .permissionDenied), w)
  launch _ w := (.error (.system .noSuchFile), w)

theorem holds_notebook (path : Path) (data : Bytes) :
    (notebook path).Holds path data (some data) where
  present := by simp [notebook]
  contents := by simp [notebook]

theorem save_notebook (path : Path) (data : Bytes) (w : Option Bytes) :
    (notebook path).save path data w = (.ok (), some data) := if_pos rfl

theorem keeps_notebook (path : Path) (w : Option Bytes) : (notebook path).Keeps path w := by
  intro data w' h
  rw [save_notebook] at h
  obtain rfl := (Prod.mk.inj h).2
  exact holds_notebook path data

end Host

theorem Stream.text_eq_ok_iff {s : Stream} {t : Text} :
    s.text = .ok t ↔ s.fault = none ∧ Utf8.decode? s.data = some t := by
  obtain ⟨data, _ | e⟩ := s
  · cases hdecode : Utf8.decode? data <;> simp [Stream.text, Stream.contents, hdecode]
  · simp [Stream.text, Stream.contents]

theorem Stream.text_encode (t : Text) : ({ data := Utf8.encode t } : Stream).text = .ok t := by
  simp only [Stream.text, Stream.contents, Utf8.decode?_encode]

end LineShell
