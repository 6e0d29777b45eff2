import Ini.Proofs.ReadBack

/-!
# Reading back with inline comments

With inline marks in the dialect, what was read is still written without fault
and read back without fault. What comes back is another matter. A value cannot
hold a mark behind a blank, for a comment would have begun there; but it can
begin with one, if on the line that was read the delimiter stood right before
it. Written with spaces, that mark has a blank before it and takes the first row
of the value.

`Config.read_rendered` says so in full: each value is read back as its
`Dialect.readBack`, and the configuration comes back as it was just if no value
begins with an inline mark or no spaces are written.
-/

namespace Ini

open Text

namespace Store

variable {d : Dialect} {spaced : Bool} {s : Store}

/-- The store as it is read back, where all marks are single characters. -/
def readBack (d : Dialect) (spaced : Bool) (s : Store) : Store :=
  s.mapValues (Option.map (d.readBack spaced))

/-- Some value begins with an inline mark. -/
def Commented (d : Dialect) (s : Store) : Prop :=
  ∃ part ∈ s.view, ∃ pair ∈ part.2, ∃ text ∈ pair.2,
    Line.startsComment d.inlineMarks text = true

instance : Decidable (s.Commented d) :=
  inferInstanceAs (Decidable (∃ part ∈ s.view, ∃ pair ∈ part.2, ∃ text ∈ pair.2,
    Line.startsComment d.inlineMarks text = true))

theorem readBack_eq_self_iff (hd : d.Marked) :
    s.readBack d spaced = s ↔ ¬(spaced = true ∧ s.Commented d) := by
  have hvalue : ∀ value : Option Text, value.map (d.readBack spaced) = value ↔
      ∀ text ∈ value, ¬(spaced = true ∧ Line.startsComment d.inlineMarks text = true) := by
    intro value
    cases value with
    | none => simp
    | some text => simp [hd.readBack_eq_self_iff]
  rw [readBack, mapValues_eq_self_iff]
  simp only [hvalue, Commented]
  constructor
  · intro h hcommented
    obtain ⟨hspaced, part, hpart, pair, hpair, text, htext, hstarts⟩ := hcommented
    exact h part hpart pair hpair text htext ⟨hspaced, hstarts⟩
  · intro h part hpart pair hpair text htext hstarts
    exact h ⟨hstarts.1, part, hpart, pair, hpair, text, htext, hstarts.2⟩

end Store

/-- What was read and could be written is read back without fault, and it is the
same unless a value begins with an inline mark and spaces are written. -/
theorem Config.read_rendered {d : Dialect} (hd : d.Marked) (hfold : d.Unfolded)
    (hblank : d.blankLinesInValues = true) (hdefault : d.defaultSection ≠ unnamedSection)
    {source text : Text}
    (hheader : ∀ item ∈ Item.cut d 1 text.lines, item.statement ≠ .header unnamedSection)
    {c : Config} (hread : (Config.empty d).read source text = (c, .ok ()))
    {spaced : Bool} {written : Text} (hrender : c.render spaced = .ok written) :
    (∀ other, (Config.empty d).read other written = (⟨d, c.store.readBack d spaced⟩, .ok ())) ∧
      ((⟨d, c.store.readBack d spaced⟩ : Config) = c ↔ ¬(spaced = true ∧ c.store.Commented d)) := by
  obtain ⟨s, hstore, rfl⟩ : ∃ s, ({ defaultName := d.defaultSection } : Store).read d source text =
      (s, .ok ()) ∧ c = ⟨d, s⟩ := by
    obtain ⟨hconfig, houtcome⟩ := Prod.mk.inj hread
    exact ⟨_, Prod.ext rfl houtcome, hconfig.symm⟩
  obtain ⟨hsound, hfilled⟩ := hd.sound_of_read hfold hblank hdefault hheader hstore
  have hbracketed : ¬s.Bracketed := by
    have hrefuses := hsound.refuses hdefault spaced
    rw [show s.render d spaced = .ok written from hrender] at hrefuses
    cases hrefuses with
    | written hnone => exact hnone
  have harranged := hsound.arranged hdefault hfilled
  obtain ⟨text', hrender', hback⟩ :=
    harranged.exists_read_mapValues (hsound.readAs hd hbracketed spaced) hdefault hblank
  obtain rfl : written = text' := Except.ok.inj (hrender.symm.trans hrender')
  refine ⟨fun other => ?_, ?_⟩
  · simp only [Config.read, Config.empty, hback, Store.readBack]
  · rw [← Store.readBack_eq_self_iff hd]
    exact ⟨congrArg Config.store, congrArg (Config.mk d)⟩

/-- A dialect in which a semicolon makes a comment. -/
def Dialect.remarked : Dialect := { inlineMarks := [[';']] }

/-- A text with a comment on a line, marks that open none, and a value that
begins with one. -/
def Text.annotated : Text := "[a; b] ; c\nkey = x;y ; z\n  w;;\nnext =;v\n  w".toList

theorem Config.read_rendered_annotated :
    Dialect.remarked.Marked ∧ Dialect.remarked.Unfolded ∧
      Dialect.remarked.blankLinesInValues = true ∧
      Dialect.remarked.defaultSection ≠ unnamedSection ∧
      (∀ item ∈ Item.cut .remarked 1 annotated.lines, item.statement ≠ .header unnamedSection) ∧
      ∃ c written, (empty .remarked).read [] annotated = (c, .ok ()) ∧
        c.render true = .ok written ∧
        (∀ other, (empty .remarked).read other written =
          (⟨.remarked, c.store.readBack .remarked true⟩, .ok ())) ∧
        ((⟨.remarked, c.store.readBack .remarked true⟩ : Config) = c ↔
          ¬(true = true ∧ c.store.Commented .remarked)) := by
  have hheader : ∀ item ∈ Item.cut .remarked 1 annotated.lines,
      item.statement ≠ .header unnamedSection := by
    intro item hitem hs
    have hlines : ∀ raw ∈ annotated.lines,
        Statement.ofCleaned .remarked (Line.clean .remarked raw) ≠ .header unnamedSection := by
      decide
    obtain ⟨raw, hraw, hname⟩ := Item.exists_of_mem_cut item hitem hs
    exact hlines raw hraw hname
  have hread : (empty .remarked).read [] annotated =
      (((empty .remarked).read [] annotated).1, .ok ()) := rfl
  refine ⟨by decide, by decide, rfl, by decide, hheader, _, _, hread, rfl, ?_⟩
  exact read_rendered (by decide) (by decide) rfl (by decide) hheader hread rfl

/-- The value `;v` is written behind a blank, and it comes back empty. -/
theorem Config.read_rendered_ne :
    ∃ c written back, (empty .remarked).read [] "[a]\nk=;v".toList = (c, .ok ()) ∧
      c.render true = .ok written ∧ (empty .remarked).read [] written = (back, .ok ()) ∧
      c.store.find? ['a'] ['k'] = some (some [';', 'v']) ∧
      back.store.find? ['a'] ['k'] = some (some []) ∧ back ≠ c :=
  ⟨_, _, _, rfl, rfl, rfl, rfl, rfl, by decide⟩

end Ini
