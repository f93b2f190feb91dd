import Easel.Proofs.Terminal.Printing
import Mathlib.Data.List.Induction

/-!
# Colors that are in force are not selected again

A styled text adds nothing for a color that it remembers to be in force. This cannot be seen:
whatever is done to a text, a terminal makes the same of its bytes as of bytes that select every
color anew, and the bytes are never more.

What makes it true is that a text remembers a color only if its own bytes put that color in force on
any terminal, whatever the terminal was in the middle of (`StyledText.InForce`). A reset and a
clearing forget both colors, a selection forgets one, and printing and moving the cursor change
neither.

* `StyledText.Edit`, `StyledText.ofEdits` — what can be done to a text, and the text that comes of
  it;
* `StyledText.spelledOut` — the text with every color selected anew;
* `Display.undergo` — what an edit means to a terminal;
* `StyledText.contents_edit` — an edit adds what it spells, or nothing if its color is remembered;
* `StyledText.read_spelledOut`, `StyledText.read_ofEdits` — a terminal makes of both texts what the
  edits mean;
* `StyledText.color?_ofEdits`, `StyledText.color?_ofEdits_eq_none_iff` — what a text remembers, and
  when it is nothing;
* `StyledText.elision_unobservable` — the main result.
-/

namespace Easel.Terminal

/-- The two colors that a character is printed in. -/
inductive Layer where
  | foreground
  | background
deriving DecidableEq

/-- Selects the color of a layer. -/
def Escape.color : Layer → Color → String
  | .foreground => foreground
  | .background => background

/-! ### Colors of a terminal -/

namespace Display

/-- The color of a layer that is in force; the terminal's own one if it is missing. -/
def color? (d : Display) : Layer → Option Color
  | .foreground => d.foreground?
  | .background => d.background?

/-- The terminal after a color has been selected. -/
def withColor (d : Display) (layer : Layer) (c : Color) : Display :=
  match layer with
  | .foreground => { d with mode := .ground, foreground? := some c }
  | .background => { d with mode := .ground, background? := some c }

/-- A terminal that has printed nothing, and has no colors but its own. -/
def plain : Display := ⟨.ground, ⟨0, 0⟩, none, none, []⟩

/-- A terminal that has read a whole selection is in the middle of nothing. -/
@[simp] theorem mode_withColor (d : Display) (layer : Layer) (c : Color) :
    (d.withColor layer c).mode = .ground := by
  cases layer <;> rfl

/-- Selecting the color of a layer leaves the other layer as it is. -/
theorem color?_withColor (d : Display) (layer other : Layer) (c : Color) :
    (d.withColor layer c).color? other = if other = layer then some c else d.color? other := by
  cases layer <;> cases other <;> rfl

/-- Selecting a color that is in force changes nothing. So a terminal that is in the middle of
nothing does not notice whether it is selected again. -/
theorem withColor_eq_self {d : Display} {layer : Layer} {c : Color} (hmode : d.mode = .ground)
    (hcolor : d.color? layer = some c) : d.withColor layer c = d := by
  cases layer with
  | foreground =>
    show { d with mode := .ground, foreground? := some c } = d
    rw [← hmode, ← hcolor]
    rfl
  | background =>
    show { d with mode := .ground, background? := some c } = d
    rw [← hmode, ← hcolor]
    rfl

section Reading

variable {columns rows : Nat} (device : Device columns rows) (d : Display)

/-- The text that selects a color is read as the selection. -/
theorem read_color (layer : Layer) (c : Color) :
    d.read device (Escape.color layer c) = d.withColor layer c := by
  cases layer with
  | foreground => exact read_foreground device d c
  | background => exact read_background device d c

/-- Printing leaves the colors in force. -/
theorem color?_printAll (chars : List Char) (layer : Layer) :
    (d.printAll device chars).color? layer = d.color? layer := by
  obtain ⟨-, hforeground, hbackground⟩ := printAll_keeps device d chars
  cases layer with
  | foreground => exact hforeground
  | background => exact hbackground

end Reading

end Display

/-! ### Edits -/

namespace StyledText

/-- The color of a layer that the text remembers. -/
def color? (t : StyledText) : Layer → Option Color
  | .foreground => t.foreground?
  | .background => t.background?

/-- Selects the color of a layer, unless it is in force already. -/
def select (t : StyledText) : Layer → Color → StyledText
  | .foreground => t.setForeground
  | .background => t.setBackground

/-- One thing to do to a styled text. Columns and rows are counted from zero, and few enough that
the count from one has 16 bits. What is written has no control characters, since these could change
the colors behind the back of the text. -/
inductive Edit where
  | write (plain : PlainText)
  | moveCursor (column row : Fin 65535)
  | select (layer : Layer) (c : Color)
  | resetAttributes
  | clear

/-- The text after an edit. -/
def edit (t : StyledText) : Edit → StyledText
  | .write plain => t.write plain.text
  | .moveCursor column row => t.moveCursor column row
  | .select layer c => t.select layer c
  | .resetAttributes => t.resetAttributes
  | .clear => t.clear

/-- The text that comes of some edits, in the order of the list. -/
def ofEdits (edits : List Edit) : StyledText := edits.foldl edit .empty

/-- Contents after one more edit, where every color is selected anew. -/
def spell (contents : String) : Edit → String
  | .write plain => contents ++ plain.text
  | .moveCursor column row => contents ++ Escape.moveCursor column row
  | .select layer c => contents ++ Escape.color layer c
  | .resetAttributes => contents ++ Escape.reset
  | .clear => ""

/-- The text that selects every color anew, and has nothing to remember. It is what the other one is
compared with. -/
def spelledOut (edits : List Edit) : StyledText := ⟨edits.foldl spell "", none, none⟩

/-- One more edit is done to the text that those before it have led to. -/
theorem ofEdits_concat (edits : List Edit) (e : Edit) :
    ofEdits (edits ++ [e]) = (ofEdits edits).edit e := by
  rw [ofEdits, List.foldl_concat, ← ofEdits]

/-- More contents are still more after one more edit. -/
theorem size_spell_mono {contents more : String} (h : contents.utf8ByteSize ≤ more.utf8ByteSize)
    (e : Edit) : (spell contents e).utf8ByteSize ≤ (spell more e).utf8ByteSize := by
  have hadded : ∀ text : String,
      (contents ++ text).utf8ByteSize ≤ (more ++ text).utf8ByteSize := by
    intro text
    rw [String.utf8ByteSize_append, String.utf8ByteSize_append]
    exact Nat.add_le_add_right h _
  -- Every edit but a clearing appends a text that does not depend on the contents.
  cases e with
  | clear => exact Nat.le_refl _
  | _ => exact hadded _

/-- Selecting a color adds to the contents, unless the text remembers it. -/
theorem contents_select (t : StyledText) (layer : Layer) (c : Color) :
    (t.select layer c).contents =
      if t.color? layer = some c then t.contents else t.contents ++ Escape.color layer c := by
  cases layer with
  | foreground =>
    show (t.setForeground c).contents = if t.foreground? = some c then _ else _
    unfold setForeground
    split <;> rfl
  | background =>
    show (t.setBackground c).contents = if t.background? = some c then _ else _
    unfold setBackground
    split <;> rfl

/-- **An edit adds what it spells, or nothing** if it selects a color that is remembered. This is
the one way in which the contents depend on what the text remembers. -/
theorem contents_edit (t : StyledText) (e : Edit) :
    (t.edit e).contents = spell t.contents e ∨
      ∃ layer c, e = .select layer c ∧ t.color? layer = some c ∧
        (t.edit e).contents = t.contents := by
  cases e with
  | select layer c =>
    show (t.select layer c).contents = t.contents ++ Escape.color layer c ∨ _
    -- Only a selection looks at what is remembered; all other edits append what they spell.
    by_cases hsame : t.color? layer = some c
    · refine .inr ⟨layer, c, rfl, hsame, ?_⟩
      exact (contents_select t layer c).trans (if_pos hsame)
    · exact .inl ((contents_select t layer c).trans (if_neg hsame))
  | _ => exact .inl rfl

/-- A color that has been selected is remembered, and the other layer is left alone. -/
theorem color?_select (t : StyledText) (layer other : Layer) (c : Color) :
    (t.select layer c).color? other = if other = layer then some c else t.color? other := by
  -- A color that is not selected again is the one that is remembered.
  cases layer with
  | foreground =>
    show (t.setForeground c).color? other = _
    unfold setForeground
    split
    · next hsame => cases other with
      | foreground => exact hsame
      | background => rfl
    · cases other <;> rfl
  | background =>
    show (t.setBackground c).color? other = _
    unfold setBackground
    split
    · next hsame => cases other with
      | foreground => rfl
      | background => exact hsame
    · cases other <;> rfl

/-- What an edit leaves of the color of a layer. It is the same for what a text remembers and for
what is in force on a terminal, except when a text is cleared. -/
def Edit.colorAfter (layer : Layer) (before : Option Color) : Edit → Option Color
  | .write _ | .moveCursor _ _ => before
  | .select selected c => if layer = selected then some c else before
  | .resetAttributes | .clear => none

/-- What a text remembers after an edit is what the edit leaves. -/
theorem color?_edit (t : StyledText) (e : Edit) (layer : Layer) :
    (t.edit e).color? layer = e.colorAfter layer (t.color? layer) := by
  cases e with
  | select selected c => exact color?_select t selected layer c
  | _ => cases layer <;> rfl

end StyledText

/-! ### What edits mean to a terminal -/

open StyledText (Edit)

namespace Display

variable {columns rows : Nat} (device : Device columns rows) (origin : Display)

/-- What an edit means to a terminal. When a text is cleared, the terminal is where it was before
the text began. -/
def undergo (d : Display) : Edit → Display
  | .write plain => d.read device plain.text
  | .moveCursor column row => { d with mode := .ground, cursor := device.place ⟨row, column⟩ }
  | .select layer c => d.withColor layer c
  | .resetAttributes => { d with mode := .ground, foreground? := none, background? := none }
  | .clear => origin

/-- What edits mean to a terminal, one after another. -/
def undergoAll (edits : List Edit) : Display := edits.foldl (undergo device origin) origin

/-- One more edit is undergone by the terminal that those before it have led to. -/
theorem undergoAll_concat (edits : List Edit) (e : Edit) :
    undergoAll device origin (edits ++ [e]) =
      undergo device origin (undergoAll device origin edits) e := by
  rw [undergoAll, List.foldl_concat, ← undergoAll]

/-- **Between characters, an edit leaves of the colors in force what it leaves of the remembered
ones.** Only a clearing brings back what was in force before. -/
theorem color?_undergo {d : Display} (hmode : d.mode = .ground) {e : Edit} (he : e ≠ .clear) :
    (undergo device origin d e).mode = .ground ∧
      ∀ layer, (undergo device origin d e).color? layer = e.colorAfter layer (d.color? layer) := by
  -- Case by case the edit: only a selection and a reset touch the colors.
  cases e with
  | write plain =>
    -- Plain text is printed, and printing selects nothing.
    have hread : undergo device origin d (.write plain) = d.printAll device plain.text.toList :=
      read_plainText device d hmode plain
    rw [hread]
    exact ⟨(printAll_keeps device d _).1 hmode, color?_printAll device d _⟩
  | select selected c =>
    exact ⟨mode_withColor d selected c, fun layer => color?_withColor d selected layer c⟩
  | clear => exact absurd rfl he
  | moveCursor column row => exact ⟨rfl, fun layer => by cases layer <;> rfl⟩
  | resetAttributes => exact ⟨rfl, fun layer => by cases layer <;> rfl⟩

end Display

namespace StyledText

section Reading

variable {columns rows : Nat} (device : Device columns rows) (origin : Display)

/-- What an edit spells is read as it is meant, for each edit has a text of its own. -/
theorem read_spell (contents : String) (e : Edit) :
    origin.read device (spell contents e) =
      Display.undergo device origin (origin.read device contents) e := by
  cases e with
  | write plain => exact Display.read_append device origin _ _
  | moveCursor column row =>
    exact (Display.read_append device origin _ _).trans (Display.read_moveCursor device _ _ _)
  | select layer c =>
    exact (Display.read_append device origin _ _).trans (Display.read_color device _ _ _)
  | resetAttributes =>
    exact (Display.read_append device origin _ _).trans (Display.read_reset device _)
  | clear => rfl

/-- **A text that selects every color anew** is read as its edits are meant. The induction is on the
edits from the last one, since the last one adds to the contents. -/
theorem read_spelledOut (edits : List Edit) :
    origin.read device (spelledOut edits).contents = Display.undergoAll device origin edits := by
  show origin.read device (edits.foldl spell "") = _
  induction edits using List.reverseRecOn with
  | nil => rfl
  | append_singleton edits e ih =>
    rw [List.foldl_concat, Display.undergoAll_concat, ← ih, read_spell]

/-- The colors that the text remembers are in force on a terminal, which is in the middle of nothing
if there are any. -/
def InForce (t : StyledText) (d : Display) : Prop :=
  ∀ layer c, t.color? layer = some c → d.mode = .ground ∧ d.color? layer = some c

variable {device origin}

/-- One more edit is read as it is meant, also where it adds nothing. There the color is in force
already, and selecting it would change nothing. -/
theorem InForce.read_edit {t : StyledText} (h : t.InForce (origin.read device t.contents))
    (e : Edit) :
    origin.read device (t.edit e).contents =
      Display.undergo device origin (origin.read device t.contents) e := by
  rcases contents_edit t e with hspelled | ⟨layer, c, rfl, hsame, hnothing⟩
  · rw [hspelled, read_spell]
  · -- Nothing is added, and the color is in force.
    obtain ⟨hmode, hcolor⟩ := h layer c hsame
    rw [hnothing]
    exact (Display.withColor_eq_self hmode hcolor).symm

/-- **What is remembered stays in force.** An edit leaves of both the same, and where it leaves a
color, the terminal is in the middle of nothing. -/
theorem InForce.edit {t : StyledText} {d : Display} (h : t.InForce d) (e : Edit) :
    (t.edit e).InForce (Display.undergo device origin d e) := by
  intro layer c hc
  rw [color?_edit] at hc
  -- A color that was remembered before shows that the terminal was between characters.
  have hkept : e ≠ .clear → e.colorAfter layer (t.color? layer) = t.color? layer →
      (Display.undergo device origin d e).mode = .ground ∧
        (Display.undergo device origin d e).color? layer = some c := by
    intro he hsame
    obtain ⟨hmode, hcolor⟩ := h layer c (hsame.symm.trans hc)
    obtain ⟨hground, hafter⟩ := Display.color?_undergo device origin hmode he
    refine ⟨hground, ?_⟩
    rw [hafter, hcolor]
    rw [hsame] at hc
    rw [← hc, hsame]
  cases e with
  | write plain => exact hkept nofun rfl
  | moveCursor column row => exact hkept nofun rfl
  | select selected new =>
    -- The selected layer has the new color on both sides, and the other layer is kept.
    by_cases hlayer : layer = selected
    · refine ⟨Display.mode_withColor d selected new, ?_⟩
      show (d.withColor selected new).color? layer = some c
      rw [Display.color?_withColor, if_pos hlayer, ← hc, Edit.colorAfter, if_pos hlayer]
    · exact hkept nofun (if_neg hlayer)
  -- Nothing is remembered any more.
  | resetAttributes => exact nomatch hc
  | clear => exact nomatch hc

variable (device origin)

/-- **A text that leaves out the colors in force** is read as its edits are meant, and what it
remembers is in force. -/
theorem read_ofEdits (edits : List Edit) :
    origin.read device (ofEdits edits).contents = Display.undergoAll device origin edits ∧
      (ofEdits edits).InForce (Display.undergoAll device origin edits) := by
  induction edits using List.reverseRecOn with
  | nil => exact ⟨rfl, fun layer c hc => by cases layer <;> exact nomatch hc⟩
  | append_singleton edits e ih =>
    obtain ⟨hread, hforce⟩ := ih
    rw [ofEdits_concat, Display.undergoAll_concat]
    refine ⟨?_, hforce.edit e⟩
    -- What is in force is known of the terminal that has read the contents, which is the same one.
    rw [← hread] at hforce
    rw [hforce.read_edit e, hread]

end Reading

/-! ### What is remembered -/

/-- **On a terminal without colors of its own** those in force are the ones that are remembered. A
clearing forgets both, and such a terminal has none to go back to. -/
theorem color?_ofEdits {columns rows : Nat} (device : Device columns rows) (edits : List Edit) :
    let d := Display.undergoAll device .plain edits
    d.mode = .ground ∧ ∀ layer, d.color? layer = (ofEdits edits).color? layer := by
  dsimp only
  induction edits using List.reverseRecOn with
  | nil => exact ⟨rfl, fun layer => by cases layer <;> rfl⟩
  | append_singleton edits e ih =>
    obtain ⟨hmode, hcolor⟩ := ih
    rw [ofEdits_concat, Display.undergoAll_concat]
    by_cases he : e = .clear
    · -- A clearing leads back to the plain terminal, and the text remembers nothing.
      subst he
      exact ⟨rfl, fun layer => by cases layer <;> rfl⟩
    · -- Any other edit leaves the same of both.
      obtain ⟨hground, hafter⟩ := Display.color?_undergo device .plain hmode he
      refine ⟨hground, fun layer => ?_⟩
      rw [hafter, hcolor, color?_edit]

/-- An edit after which no color is remembered. -/
def Edit.forgets : Edit → Bool
  | .resetAttributes | .clear => true
  | .write _ | .moveCursor _ _ | .select _ _ => false

/-- The edits since the last reset, or since the contents began, the newest first. -/
def recent (edits : List Edit) : List Edit := edits.reverse.takeWhile fun e => !e.forgets

/-- A newer edit is more recent, unless it forgets all that has been before it. -/
theorem recent_concat (edits : List Edit) (e : Edit) :
    recent (edits ++ [e]) = if e.forgets then [] else e :: recent edits := by
  rw [recent, List.reverse_concat, List.takeWhile_cons]
  cases e.forgets <;> rfl

/-- **No color is remembered if none has been selected since the last reset**, or since the contents
began. A selection that comes before does not count, whether or not it was left out. -/
theorem color?_ofEdits_eq_none_iff (edits : List Edit) (layer : Layer) :
    (ofEdits edits).color? layer = none ↔ ∀ c, .select layer c ∉ recent edits := by
  induction edits using List.reverseRecOn with
  | nil => exact ⟨fun _ _ => List.not_mem_nil, fun _ => by cases layer <;> rfl⟩
  | append_singleton edits e ih =>
    rw [ofEdits_concat, color?_edit, recent_concat]
    cases e with
    -- Edits that neither select nor forget change neither of the two sides.
    | write plain => simpa [Edit.colorAfter, Edit.forgets] using ih
    | moveCursor column row => simpa [Edit.colorAfter, Edit.forgets] using ih
    | select selected c =>
      by_cases hlayer : layer = selected
      · subst hlayer
        simp only [Edit.colorAfter, if_pos, reduceCtorEq, false_iff]
        exact fun hnone => hnone c List.mem_cons_self
      · simpa [Edit.colorAfter, Edit.forgets, hlayer] using ih
    | resetAttributes => simp [Edit.colorAfter, Edit.forgets]
    | clear => simp [Edit.colorAfter, Edit.forgets]

/-! ### The main result -/

/-- The bytes are those of the contents. -/
theorem length_bytes (t : StyledText) : t.bytes.length = t.size := by
  rw [bytes, Array.length_toList]
  rfl

/-- Leaving out colors makes a text no longer than it would be. -/
theorem size_ofEdits_le (edits : List Edit) : (ofEdits edits).size ≤ (spelledOut edits).size := by
  show (ofEdits edits).contents.utf8ByteSize ≤ (edits.foldl spell "").utf8ByteSize
  induction edits using List.reverseRecOn with
  | nil => exact Nat.le_refl _
  | append_singleton edits e ih =>
    rw [ofEdits_concat, List.foldl_concat]
    rcases contents_edit (ofEdits edits) e with hspelled | ⟨layer, c, rfl, -, hnothing⟩
    · rw [hspelled]
      exact size_spell_mono ih e
    · -- The text that selects every color anew gets longer, and this one does not.
      show ((ofEdits edits).edit (.select layer c)).contents.utf8ByteSize ≤
        (edits.foldl spell "" ++ Escape.color layer c).utf8ByteSize
      rw [hnothing, String.utf8ByteSize_append]
      exact Nat.le_trans ih (Nat.le_add_right _ _)

/-- **Leaving out colors that are in force cannot be seen.**

Whatever is done to a text, any terminal, whatever it has shown before and whatever it is in the
middle of, makes the same of its bytes as of the bytes with every color selected anew: the same
prints, cursor and colors. The bytes are never more. A color is remembered exactly if the bytes put
it in force on every terminal, and none is remembered exactly if none has been selected since the
last reset or since the contents began. -/
theorem elision_unobservable (edits : List Edit) :
    let t := ofEdits edits
    let anew := spelledOut edits
    (∀ (columns rows : Nat) (device : Device columns rows) (origin : Display),
      origin.feedAll device t.bytes = origin.feedAll device anew.bytes) ∧
    t.bytes.length ≤ anew.bytes.length ∧
    ∀ layer,
      (∀ (columns rows : Nat) (device : Device columns rows) (c : Color),
        t.color? layer = some c ↔
          ∀ origin : Display, (origin.feedAll device t.bytes).color? layer = some c) ∧
      (t.color? layer = none ↔ ∀ c, .select layer c ∉ recent edits) := by
  intro t anew
  have hread : ∀ {columns rows : Nat} (device : Device columns rows) (origin : Display),
      origin.feedAll device t.bytes = Display.undergoAll device origin edits :=
    fun device origin => (read_ofEdits device origin edits).1
  refine ⟨fun columns rows device origin => ?_, ?_, fun layer =>
    ⟨fun columns rows device c => ⟨fun hc origin => ?_, fun hall => ?_⟩,
      color?_ofEdits_eq_none_iff edits layer⟩⟩
  · -- Both texts are read as the edits are meant.
    exact (hread device origin).trans (read_spelledOut device origin edits).symm
  · rw [length_bytes, length_bytes]
    exact size_ofEdits_le edits
  · rw [hread]
    exact ((read_ofEdits device origin edits).2 layer c hc).2
  · -- A terminal that had no colors of its own has only those that are remembered.
    have hplain := hall .plain
    rwa [hread, (color?_ofEdits device edits).2] at hplain

/-- A color is selected again after a reset, and only then. -/
example : (ofEdits [.select .background .pureRed, .select .background .pureRed, .resetAttributes,
    .select .background .pureRed]).contents = "\x1b[48;2;255;0;0m\x1b[0m\x1b[48;2;255;0;0m" := by
  decide +kernel

end StyledText

end Easel.Terminal
