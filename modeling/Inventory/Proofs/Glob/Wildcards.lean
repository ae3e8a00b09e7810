import Inventory.Bytes
import Mathlib.Data.List.Basic

/-!
# Inventory.Proofs.Glob.Wildcards

What a glob of characters and wildcards takes, by characters and by bytes.

The same glob can be held against a text in units of either kind (`Takes`). Characters begin with a unit
that nothing else begins with, so literal characters are found between characters only, and the wildcards
between two of them take a run of whole characters, of which only the number of units counts
(`takes_iff_fits`). The kinds of units differ for those wildcards alone that can tell one character from
one byte (`Gap.isMild`, `isMild_iff`).
-/

namespace Inventory.Glob

variable {α : Type} {spell : Char → List α} {glob text : List Char}

/-! ## Units of a text -/

/-- Whether a glob takes a whole text that is spelled in units: a question mark takes any one unit, a star
any run of them, and every other character itself. -/
def Takes (spell : Char → List α) : List Char → List α → Prop
  | [], units => units = []
  | '?' :: glob, units => ∃ u rest, units = u :: rest ∧ Takes spell glob rest
  | '*' :: glob, units => ∃ run rest, units = run ++ rest ∧ Takes spell glob rest
  | c :: glob, units => ∃ rest, units = spell c ++ rest ∧ Takes spell glob rest

theorem takes_literal {c : Char} (hone : c ≠ '?') (hstar : c ≠ '*') {units : List α} :
    Takes spell (c :: glob) units ↔ ∃ rest, units = spell c ++ rest ∧ Takes spell glob rest := by
  rw [Takes]
  · exact hone
  · exact hstar

/-- A star ends where it stands, or it takes the unit in front and goes on. -/
theorem takes_star_cons {u : α} {units : List α} : Takes spell ('*' :: glob) (u :: units) ↔
    Takes spell glob (u :: units) ∨ Takes spell ('*' :: glob) units := by
  rw [Takes, Takes]
  constructor
  · rintro ⟨_ | ⟨v, run⟩, left, hsplit, hleft⟩
    · exact .inl (hsplit ▸ hleft)
    · exact .inr ⟨run, left, (List.cons.inj hsplit).2, hleft⟩
  · rintro (hhere | ⟨run, left, rfl, hleft⟩)
    · exact ⟨[], u :: units, rfl, hhere⟩
    · exact ⟨u :: run, left, rfl, hleft⟩

theorem takes_star_nil : Takes spell ('*' :: glob) [] ↔ Takes spell glob [] := by
  rw [Takes]
  constructor
  · rintro ⟨run, left, hsplit, hleft⟩
    rwa [(List.append_eq_nil_iff.1 hsplit.symm).2] at hleft
  · exact fun hleft => ⟨[], [], rfl, hleft⟩

/-- Every character is a unit of its own. -/
def asIs (c : Char) : List Char := [c]

/-- A spelling in which it shows where a character begins, and which character it is. -/
structure Spells (spell : Char → List α) (begins : α → Prop) : Prop where
  first : ∀ c, ∃ u us, spell c = u :: us ∧ begins u ∧ ∀ x ∈ us, ¬ begins x
  char : ∀ {c d xs ys}, spell c ++ xs = spell d ++ ys → c = d

theorem flatMap_asIs (text : List Char) : text.flatMap asIs = text := List.flatMap_singleton' text

theorem spells_asIs : Spells asIs fun _ => True where
  first c := ⟨c, [], rfl, trivial, nofun⟩
  char h := (List.cons.inj h).1

theorem spells_utf8 : Spells String.utf8EncodeChar UInt8.IsUTF8FirstByte where
  first c := by
    have hbegins := @UInt8.isUTF8FirstByte_getElem_utf8EncodeChar c
    cases hc : String.utf8EncodeChar c with
    | nil =>
        have hlength := String.length_utf8EncodeChar c
        rw [hc] at hlength
        exact absurd hlength.symm (Nat.ne_of_gt c.utf8Size_pos)
    | cons u us =>
        simp only [hc] at hbegins
        refine ⟨u, us, rfl, (@hbegins 0 (by simp)).2 rfl, fun x hx => ?_⟩
        obtain ⟨i, hi, rfl⟩ := List.getElem_of_mem hx
        exact fun h => Nat.succ_ne_zero i ((@hbegins (i + 1) (by simpa using hi)).1 h)
  char := by
    intro c d xs ys h
    have hread : ∀ (c : Char) (xs : List UInt8),
        (String.utf8EncodeChar c ++ xs).toByteArray.utf8DecodeChar? 0 = some c := fun c xs => by
      rw [List.toByteArray_append]
      exact ByteArray.utf8DecodeChar?_utf8EncodeChar_append
    exact Option.some.inj ((hread c xs).symm.trans (h ▸ hread d ys))

/-! ## Runs of wildcards -/

/-- Wildcards that stand together: how many question marks there are among them, and whether there is a
star. -/
structure Gap where
  ones : Nat := 0
  star : Bool := false

namespace Gap

/-- Whether the wildcards take a run of so many units. -/
def Takes (gap : Gap) (units : Nat) : Prop :=
  if gap.star then gap.ones ≤ units else units = gap.ones

/-- The wildcards with one question mark more. -/
def addOne (gap : Gap) : Gap := { gap with ones := gap.ones + 1 }

/-- The wildcards with a star. -/
def addStar (gap : Gap) : Gap := { gap with star := true }

variable {gap : Gap} {n : Nat}

theorem takes_addOne_succ : gap.addOne.Takes (n + 1) ↔ gap.Takes n := by
  unfold Takes addOne
  dsimp only
  split <;> omega

theorem not_takes_addOne_zero : ¬ gap.addOne.Takes 0 := by
  unfold Takes addOne
  dsimp only
  split <;> omega

theorem takes_addStar_zero : gap.addStar.Takes 0 ↔ gap.Takes 0 := by
  unfold Takes addStar
  simp only [if_true]
  split <;> omega

/-- A star takes nothing, or one unit and then as much as it does. -/
theorem takes_addStar : gap.addStar.Takes n ↔ gap.Takes n ∨ 0 < n ∧ gap.addStar.Takes (n - 1) := by
  unfold Takes addStar
  simp only [if_true]
  split <;> omega

end Gap

/-- A glob by its literal characters: the wildcards before them, and each with the wildcards after it. -/
structure Outline where
  first : Gap := {}
  rest : List (Char × Gap) := []

/-- The outline of a glob. -/
def outline : List Char → Outline
  | [] => {}
  | '?' :: glob => ⟨(outline glob).first.addOne, (outline glob).rest⟩
  | '*' :: glob => ⟨(outline glob).first.addStar, (outline glob).rest⟩
  | c :: glob => ⟨{}, (c, (outline glob).first) :: (outline glob).rest⟩

/-- Whether a text is made of literal characters, the runs that the wildcards after them take, and in front
of all a run of a suitable number of units. -/
def Fits (spell : Char → List α) : (Nat → Prop) → List (Char × Gap) → List Char → Prop
  | suits, [], text => suits (text.flatMap spell).length
  | suits, (c, gap) :: rest, text => ∃ run tail, text = run ++ c :: tail ∧
      suits (run.flatMap spell).length ∧ Fits spell gap.Takes rest tail

section Fits

variable {suits suits' : Nat → Prop} {rest : List (Char × Gap)} {c : Char}

theorem Fits.imp (h : ∀ n, suits n → suits' n) (hfits : Fits spell suits rest text) :
    Fits spell suits' rest text := by
  cases rest with
  | nil => exact h _ hfits
  | cons p rest =>
      obtain ⟨run, tail, htext, hrun, htail⟩ := hfits
      exact ⟨run, tail, htext, h _ hrun, htail⟩

theorem fits_congr (h : ∀ n, suits n ↔ suits' n) :
    Fits spell suits rest text ↔ Fits spell suits' rest text :=
  ⟨.imp fun n => (h n).1, .imp fun n => (h n).2⟩

theorem fits_or : Fits spell (fun n => suits n ∨ suits' n) rest text ↔
    Fits spell suits rest text ∨ Fits spell suits' rest text := by
  cases rest with
  | nil => rfl
  | cons p rest =>
      constructor
      · rintro ⟨run, tail, htext, hrun | hrun, htail⟩
        · exact .inl ⟨run, tail, htext, hrun, htail⟩
        · exact .inr ⟨run, tail, htext, hrun, htail⟩
      · rintro (hfits | hfits)
        · exact hfits.imp fun _ => .inl
        · exact hfits.imp fun _ => .inr

/-- Where there is no text, the run in front is empty. -/
theorem fits_nil_congr (h : suits 0 ↔ suits' 0) :
    Fits spell suits rest [] ↔ Fits spell suits' rest [] := by
  cases rest with
  | nil => exact h
  | cons p rest => simp [Fits]

theorem suits_of_fits_nil (h : Fits spell suits rest []) : suits 0 := by
  cases rest with
  | nil => exact h
  | cons p rest => simp [Fits] at h

/-- A run that cannot be empty begins with the first character. -/
theorem fits_cons (h : ¬ suits 0) : Fits spell suits rest (c :: text) ↔
    Fits spell (fun n => suits ((spell c).length + n)) rest text := by
  cases rest with
  | nil => simp [Fits]
  | cons p rest =>
      constructor
      · rintro ⟨_ | ⟨d, run⟩, tail, htext, hrun, htail⟩
        · exact absurd hrun h
        · obtain ⟨rfl, rfl⟩ := List.cons.inj htext
          exact ⟨run, tail, rfl, by simpa using hrun, htail⟩
      · rintro ⟨run, tail, rfl, hrun, htail⟩
        exact ⟨c :: run, tail, rfl, by simpa using hrun, htail⟩

end Fits

/-! ## Taking by units and by runs -/

/-- Whether the glob takes a text exactly if the text fits, also where the first units have been cut off a
character in front of it. -/
def Outlines (spell : Char → List α) (begins : α → Prop) (glob : List Char) (gap : Gap)
    (rest : List (Char × Gap)) : Prop :=
  ∀ cut text, (∀ x ∈ cut, ¬ begins x) →
    (Takes spell glob (cut ++ text.flatMap spell) ↔
      Fits spell (fun n => gap.Takes (cut.length + n)) rest text)

section Spells

variable {begins : α → Prop} (hs : Spells spell begins)
include hs

theorem Spells.eq_nil_of_flatMap {text : List Char} (h : text.flatMap spell = []) : text = [] := by
  cases text with
  | nil => rfl
  | cons c text =>
      obtain ⟨u, us, hspell, -⟩ := hs.first c
      rw [List.flatMap_cons, hspell] at h
      contradiction

/-- Behind the first unit of a text there is one that begins with what is left of a character. -/
theorem Spells.behind {cut units : List α} {u : α} {text : List Char} (hcut : ∀ x ∈ cut, ¬ begins x)
    (h : u :: units = cut ++ text.flatMap spell) :
    ∃ cut' text', units = cut' ++ text'.flatMap spell ∧ (∀ x ∈ cut', ¬ begins x) ∧
      ∀ (suits : Nat → Prop) rest, ¬ suits 0 →
        (Fits spell (fun n => suits (cut.length + n)) rest text ↔
          Fits spell (fun n => suits (cut'.length + n + 1)) rest text') := by
  cases cut with
  | cons v cut =>
      obtain ⟨rfl, rfl⟩ := List.cons.inj h
      refine ⟨cut, text, rfl, fun x hx => hcut x (List.mem_cons_of_mem _ hx), fun suits rest _ => ?_⟩
      refine fits_congr fun n => ?_
      rw [List.length_cons, Nat.add_right_comm]
  | nil =>
      cases text with
      | nil => contradiction
      | cons c text =>
          obtain ⟨v, us, hspell, -, hus⟩ := hs.first c
          rw [List.nil_append, List.flatMap_cons, hspell] at h
          obtain ⟨rfl, rfl⟩ := List.cons.inj h
          refine ⟨us, text, rfl, hus, fun suits rest hzero => ?_⟩
          rw [fits_cons (by simpa using hzero), hspell]
          refine fits_congr fun n => ?_
          rw [List.length_nil, List.length_cons, Nat.zero_add, Nat.add_right_comm]

variable {gap : Gap} {rest : List (Char × Gap)}

/-- A question mark takes the unit in front. -/
theorem Spells.outlines_one (h : Outlines spell begins glob gap rest) :
    Outlines spell begins ('?' :: glob) gap.addOne rest := by
  intro cut text hcut
  rw [Takes]
  cases hunits : cut ++ text.flatMap spell with
  | nil =>
      obtain ⟨rfl, htext⟩ := List.append_eq_nil_iff.1 hunits
      obtain rfl := hs.eq_nil_of_flatMap htext
      refine iff_of_false (by simp) fun hfits => ?_
      have hzero := suits_of_fits_nil hfits
      exact Gap.not_takes_addOne_zero hzero
  | cons u units =>
      obtain ⟨cut', text', hunits', hcut', hbehind⟩ := hs.behind hcut hunits.symm
      rw [hbehind _ _ Gap.not_takes_addOne_zero]
      simp only [Gap.takes_addOne_succ]
      rw [← h cut' text' hcut', ← hunits']
      constructor
      · rintro ⟨v, left, hsplit, hleft⟩
        rwa [(List.cons.inj hsplit).2]
      · exact fun hleft => ⟨u, units, rfl, hleft⟩

/-- A star tries every place from where it stands on. -/
theorem Spells.outlines_star (h : Outlines spell begins glob gap rest) :
    Outlines spell begins ('*' :: glob) gap.addStar rest := by
  -- What is left of a character in front changes with every unit, so the units are counted instead.
  suffices hunits : ∀ units cut text, units = cut ++ text.flatMap spell → (∀ x ∈ cut, ¬ begins x) →
      (Takes spell ('*' :: glob) units ↔
        Fits spell (fun n => gap.addStar.Takes (cut.length + n)) rest text) from
    fun cut text => hunits _ cut text rfl
  intro units
  induction units with
  | nil =>
      intro cut text hunits hcut
      obtain ⟨rfl, htext⟩ := List.append_eq_nil_iff.1 hunits.symm
      obtain rfl := hs.eq_nil_of_flatMap htext
      rw [takes_star_nil]
      exact (h [] [] hcut).trans (fits_nil_congr Gap.takes_addStar_zero.symm)
  | cons u units ih =>
      intro cut text hunits hcut
      obtain ⟨cut', text', hunits', hcut', hbehind⟩ := hs.behind hcut hunits
      rw [takes_star_cons, ih cut' text' hunits' hcut', hunits, h cut text hcut]
      have hlater := hbehind (fun n => 0 < n ∧ gap.addStar.Takes (n - 1)) rest (by simp)
      simp only [Nat.add_sub_cancel, Nat.succ_pos, true_and] at hlater
      rw [← hlater, ← fits_or]
      exact fits_congr fun n => Gap.takes_addStar.symm

/-- A literal character takes itself, which nothing that is left of another character looks like. -/
theorem Spells.outlines_char (h : Outlines spell begins glob gap rest) {c : Char} (hone : c ≠ '?')
    (hstar : c ≠ '*') : Outlines spell begins (c :: glob) {} ((c, gap) :: rest) := by
  intro cut text hcut
  have htail : ∀ tail, Takes spell glob (tail.flatMap spell) ↔ Fits spell gap.Takes rest tail :=
    fun tail => by simpa using h [] tail nofun
  rw [takes_literal hone hstar]
  constructor
  · rintro ⟨left, hsplit, hleft⟩
    obtain ⟨u, us, hspell, hu, -⟩ := hs.first c
    cases cut with
    | cons v cut =>
        rw [hspell] at hsplit
        obtain ⟨rfl, -⟩ := List.cons.inj hsplit
        exact absurd hu (hcut v List.mem_cons_self)
    | nil =>
        cases text with
        | nil => simp [hspell] at hsplit
        | cons d tail =>
            rw [List.nil_append, List.flatMap_cons] at hsplit
            obtain rfl := hs.char hsplit
            obtain rfl := List.append_cancel_left hsplit
            exact ⟨[], tail, rfl, rfl, (htail tail).1 hleft⟩
  · rintro ⟨run, tail, rfl, hrun, hfits⟩
    obtain ⟨hnone, hempty⟩ := Nat.add_eq_zero_iff.1 hrun
    obtain rfl := List.length_eq_zero_iff.1 hnone
    obtain rfl := hs.eq_nil_of_flatMap (List.length_eq_zero_iff.1 hempty)
    exact ⟨tail.flatMap spell, rfl, (htail tail).2 hfits⟩

theorem Spells.outlines (glob : List Char) :
    Outlines spell begins glob (outline glob).first (outline glob).rest := by
  fun_induction outline glob with
  | case1 =>
      intro cut text hcut
      rw [Takes, Fits, ← List.length_append]
      exact List.length_eq_zero_iff.symm
  | case2 glob ih => exact hs.outlines_one ih
  | case3 glob ih => exact hs.outlines_star ih
  | case4 c glob hone hstar ih => exact hs.outlines_char ih hone hstar

/-- A glob takes a text if the text fits the outline of the glob. -/
theorem Spells.takes_iff_fits (glob text : List Char) : Takes spell glob (text.flatMap spell) ↔
    Fits spell (outline glob).first.Takes (outline glob).rest text := by
  simpa using hs.outlines glob [] text nofun

end Spells

/-! ## Where the units make no difference -/

/-- Whether the wildcards cannot tell one character from one byte. -/
def Gap.isMild (gap : Gap) : Bool := gap.ones == 0 || gap.ones == 1 && gap.star

/-- All places of a glob where wildcards can stand. -/
def Outline.gaps (o : Outline) : List Gap := o.first :: o.rest.map Prod.snd

theorem Gap.takes_congr_of_isMild {gap : Gap} (h : gap.isMild) {n m : Nat} (hzero : n = 0 ↔ m = 0) :
    gap.Takes n ↔ gap.Takes m := by
  unfold isMild at h
  unfold Takes
  cases hstar : gap.star <;> simp [hstar] at h ⊢ <;> omega

section Agreement

variable {β : Type} {spell' : Char → List β} {gap : Gap} {rest : List (Char × Gap)}

/-- Two spellings agree on a text if all wildcards find the runs in it of suitable length in both. -/
theorem fits_congr_spell (h : ∀ g ∈ gap :: rest.map Prod.snd, ∀ run, run ⊆ text →
      (g.Takes (run.flatMap spell).length ↔ g.Takes (run.flatMap spell').length)) :
    Fits spell gap.Takes rest text ↔ Fits spell' gap.Takes rest text := by
  induction rest generalizing gap text with
  | nil => exact h gap List.mem_cons_self text (List.Subset.refl text)
  | cons p rest ih =>
      obtain ⟨c, next⟩ := p
      rw [Fits, Fits]
      refine exists_congr fun run => exists_congr fun tail => and_congr_right fun htext => ?_
      subst htext
      refine and_congr (h gap List.mem_cons_self run (by simp)) (ih fun g hg run hrun => ?_)
      exact h g (List.mem_cons_of_mem _ hg) run (List.Subset.trans hrun (by simp))

end Agreement

/-! ## Where they do -/

/-- A text with a run of its own for each place of the wildcards. -/
def fill (runs : Gap → List Char) : Gap → List (Char × Gap) → List Char
  | gap, [] => runs gap
  | gap, (c, next) :: rest => runs gap ++ c :: fill runs next rest

section Fill

variable {runs runs' : Gap → List Char} {gap : Gap} {rest : List (Char × Gap)} {p : Char → Bool}

theorem fits_fill (h : ∀ g : Gap, g.Takes ((runs g).flatMap spell).length) :
    Fits spell gap.Takes rest (fill runs gap rest) := by
  induction rest generalizing gap with
  | nil => exact h gap
  | cons q rest ih => exact ⟨runs gap, _, rfl, h gap, ih⟩

/-- If every run that is taken has at least as many characters of a kind, so has every text that fits. -/
theorem countP_fill_le (h : ∀ (g : Gap) (run : List Char), g.Takes (run.flatMap spell).length →
      (runs g).countP p ≤ run.countP p) (hfits : Fits spell gap.Takes rest text) :
    (fill runs gap rest).countP p ≤ text.countP p := by
  induction rest generalizing gap text with
  | nil => exact h gap text hfits
  | cons q rest ih =>
      obtain ⟨run, tail, rfl, hrun, htail⟩ := hfits
      have hfirst := h gap run hrun
      have hlater := ih htail
      simp only [fill, List.countP_append, List.countP_cons]
      omega

theorem countP_fill_mono (h : ∀ g, (runs g).countP p ≤ (runs' g).countP p) :
    (fill runs gap rest).countP p ≤ (fill runs' gap rest).countP p := by
  induction rest generalizing gap with
  | nil => exact h gap
  | cons q rest ih =>
      have hfirst := h gap
      have hlater : (fill runs q.2 rest).countP p ≤ (fill runs' q.2 rest).countP p := ih
      simp only [fill, List.countP_append, List.countP_cons]
      omega

theorem countP_fill_lt (h : ∀ g, (runs g).countP p ≤ (runs' g).countP p) {g : Gap}
    (hg : g ∈ gap :: rest.map Prod.snd) (hlt : (runs g).countP p < (runs' g).countP p) :
    (fill runs gap rest).countP p < (fill runs' gap rest).countP p := by
  induction rest generalizing gap with
  | nil =>
      obtain rfl := List.mem_singleton.1 hg
      exact hlt
  | cons q rest ih =>
      have hfirst := h gap
      have hlater : (fill runs q.2 rest).countP p ≤ (fill runs' q.2 rest).countP p := countP_fill_mono h
      simp only [fill, List.countP_append, List.countP_cons]
      rcases List.mem_cons.1 hg with rfl | hg
      · omega
      · have hrest := ih hg
        omega

/-- So a text with runs that are shorter in characters of a kind than any that are taken does not fit. -/
theorem not_fits_fill (p : Char → Bool) (runs' : Gap → List Char)
    (hle : ∀ g, (runs g).countP p ≤ (runs' g).countP p) {g : Gap}
    (hg : g ∈ gap :: rest.map Prod.snd) (hlt : (runs g).countP p < (runs' g).countP p)
    (h : ∀ (g : Gap) (run : List Char), g.Takes (run.flatMap spell).length →
      (runs' g).countP p ≤ run.countP p) : ¬ Fits spell gap.Takes rest (fill runs gap rest) :=
  fun hfits => absurd (countP_fill_le h hfits) (Nat.not_le.2 (countP_fill_lt hle hg hlt))

end Fill

theorem length_le_length_flatMap_utf8 (run : List Char) :
    run.length ≤ (run.flatMap String.utf8EncodeChar).length := by
  induction run with
  | nil => exact Nat.le_refl 0
  | cons c run ih =>
      have hc := c.utf8Size_pos
      rw [List.flatMap_cons, List.length_append, String.length_utf8EncodeChar, List.length_cons]
      omega

/-- A run has as many bytes as characters if each of them is one byte. -/
theorem length_flatMap_utf8_iff {run : List Char} :
    (run.flatMap String.utf8EncodeChar).length = run.length ↔ ∀ c ∈ run, c.utf8Size = 1 := by
  induction run with
  | nil => simp
  | cons c run ih =>
      have hc := c.utf8Size_pos
      have hle := length_le_length_flatMap_utf8 run
      rw [List.forall_mem_cons, ← ih, List.flatMap_cons, List.length_append, String.length_utf8EncodeChar,
        List.length_cons]
      omega

/-- A run of as many bytes as there are question marks, which has fewer characters if there are two. -/
def denseRun (gap : Gap) : List Char :=
  if 2 ≤ gap.ones then 'é' :: List.replicate (gap.ones - 2) 'a' else List.replicate gap.ones 'a'

/-- A run of as many characters as there are question marks, none of which is one byte. -/
def wideRun (gap : Gap) : List Char := List.replicate gap.ones 'é'

theorem Gap.takes_ones (gap : Gap) : gap.Takes gap.ones := by
  unfold Takes
  split <;> simp

theorem length_denseRun (gap : Gap) :
    (denseRun gap).length = if 2 ≤ gap.ones then gap.ones - 1 else gap.ones := by
  unfold denseRun
  split
  · rw [List.length_cons, List.length_replicate]
    omega
  · exact List.length_replicate

theorem length_denseRun_utf8 (gap : Gap) :
    ((denseRun gap).flatMap String.utf8EncodeChar).length = gap.ones := by
  have hrun : ∀ n, ((List.replicate n 'a').flatMap String.utf8EncodeChar).length = n := fun n => by
    rw [length_flatMap_utf8_iff.2 fun c hc => by rw [List.eq_of_mem_replicate hc]; rfl,
      List.length_replicate]
  unfold denseRun
  split
  · rw [List.flatMap_cons, List.length_append, hrun, String.length_utf8EncodeChar]
    change 2 + _ = _
    omega
  · exact hrun _

/-- A run of one byte is a character of one byte. -/
theorem one_le_countP_of_length_utf8 {run : List Char}
    (h : (run.flatMap String.utf8EncodeChar).length = 1) : 1 ≤ run.countP (·.utf8Size == 1) := by
  cases run with
  | nil => contradiction
  | cons c run =>
      have hc := c.utf8Size_pos
      rw [List.flatMap_cons, List.length_append, String.length_utf8EncodeChar] at h
      rw [List.countP_cons_of_pos (by simp; omega)]
      exact Nat.le_add_left 1 _

section Tell

variable {gap g : Gap} {rest : List (Char × Gap)} (hg : g ∈ gap :: rest.map Prod.snd)
include hg

/-- Two question marks beside each other take a character of two bytes if bytes are counted. -/
theorem not_fits_denseRun (htwo : 2 ≤ g.ones) : ¬ Fits asIs gap.Takes rest (fill denseRun gap rest) := by
  refine not_fits_fill (fun _ => true) (fun g => List.replicate g.ones 'a') ?_ hg ?_ ?_
  · intro g
    simp only [List.countP_true, length_denseRun, List.length_replicate]
    split <;> omega
  · simp only [List.countP_true, length_denseRun, List.length_replicate, if_pos htwo]
    omega
  · intro g run hrun
    rw [flatMap_asIs] at hrun
    simp only [List.countP_true, List.length_replicate]
    unfold Gap.Takes at hrun
    split at hrun <;> omega

/-- One question mark without a star takes no character of two bytes then. -/
theorem not_fits_wideRun (hone : g.ones = 1 ∧ g.star = false) :
    ¬ Fits String.utf8EncodeChar gap.Takes rest (fill wideRun gap rest) := by
  have hwide : ∀ g : Gap, (wideRun g).countP (·.utf8Size == 1) = 0 := fun g => by
    rw [List.countP_eq_zero]
    intro c hc
    rw [List.eq_of_mem_replicate hc]
    decide
  refine not_fits_fill (·.utf8Size == 1) (fun g => if g.ones = 1 ∧ g.star = false then ['a'] else [])
    (fun g => ?_) hg ?_ ?_
  · rw [hwide]
    exact Nat.zero_le _
  · rw [hwide, if_pos hone]
    decide
  · intro g run hrun
    split
    · next hg =>
      rw [Gap.Takes, hg.1, hg.2, if_neg Bool.false_ne_true] at hrun
      exact one_le_countP_of_length_utf8 hrun
    · exact Nat.zero_le _

/-- Wherever there are wildcards that can tell bytes from characters, they do so in some text. -/
theorem exists_not_fits_iff (hmild : g.isMild = false) :
    ∃ text, ¬ (Fits String.utf8EncodeChar gap.Takes rest text ↔ Fits asIs gap.Takes rest text) := by
  by_cases htwo : 2 ≤ g.ones
  · have hbytes : Fits String.utf8EncodeChar gap.Takes rest (fill denseRun gap rest) :=
      fits_fill fun g => by rw [length_denseRun_utf8]; exact g.takes_ones
    exact ⟨_, fun h => not_fits_denseRun hg htwo (h.1 hbytes)⟩
  · have hone : g.ones = 1 ∧ g.star = false := by
      unfold Gap.isMild at hmild
      cases hstar : g.star <;> simp [hstar] at hmild ⊢ <;> omega
    have hchars : Fits asIs gap.Takes rest (fill wideRun gap rest) :=
      fits_fill fun g => by rw [flatMap_asIs, wideRun, List.length_replicate]; exact g.takes_ones
    exact ⟨_, fun h => not_fits_wideRun hg hone (h.2 hchars)⟩

end Tell

/-! ## Globs and texts -/

/-- A glob of literal characters and wildcards, without two stars beside each other. -/
structure IsPlain (glob : String) : Prop where
  char : ∀ c ∈ glob.toList, c ∉ ['[', ']', '{', '}', '\\']
  star : ¬ ['*', '*'] <:+: glob.toList

/-- Whether a glob takes a text character by character. -/
def Matches (glob text : String) : Prop := Takes asIs glob.toList text.toList

/-- Whether a glob takes a text byte by byte. -/
def MatchesBytes (glob text : String) : Prop :=
  Takes String.utf8EncodeChar glob.toList (Bytes.ofText text)

/-- Whether no wildcards of a glob can tell one character from one byte: question marks stand alone and
beside a star. -/
def isMild (glob : String) : Bool := (outline glob.toList).gaps.all Gap.isMild

theorem ofText_eq_flatMap (text : String) :
    Bytes.ofText text = text.toList.flatMap String.utf8EncodeChar := by
  rw [Bytes.ofText, String.toUTF8_eq_toByteArray, ← String.utf8Encode_toList, List.utf8Encode,
    List.data_toByteArray]

theorem matches_iff {glob text : String} : Matches glob text ↔
    Fits asIs (outline glob.toList).first.Takes (outline glob.toList).rest text.toList := by
  rw [← spells_asIs.takes_iff_fits, flatMap_asIs, Matches]

theorem matchesBytes_iff {glob text : String} : MatchesBytes glob text ↔
    Fits String.utf8EncodeChar (outline glob.toList).first.Takes (outline glob.toList).rest text.toList := by
  rw [← spells_utf8.takes_iff_fits, ← ofText_eq_flatMap, MatchesBytes]

/-- Bytes can be told from characters by a glob exactly if it is not mild. -/
theorem isMild_iff {glob : String} :
    isMild glob ↔ ∀ text, (MatchesBytes glob text ↔ Matches glob text) := by
  have hgaps : isMild glob ↔ ∀ g ∈ (outline glob.toList).gaps, g.isMild := List.all_eq_true
  simp only [matches_iff, matchesBytes_iff]
  constructor
  · intro hmild text
    refine fits_congr_spell fun g hg run _ => g.takes_congr_of_isMild (hgaps.1 hmild g hg) ?_
    rw [List.length_eq_zero_iff, List.length_eq_zero_iff, flatMap_asIs]
    exact ⟨spells_utf8.eq_nil_of_flatMap, fun h => by rw [h]; rfl⟩
  · intro hall
    refine hgaps.2 fun g hg => ?_
    by_contra hnot
    obtain ⟨text, htext⟩ := exists_not_fits_iff hg (Bool.eq_false_iff.2 hnot)
    exact htext (String.toList_ofList (l := text) ▸ hall (String.ofList text))

theorem isPlain_replicate (n : Nat) : IsPlain (String.ofList (List.replicate n '?')) where
  char c hc := by
    rw [String.toList_ofList] at hc
    rw [List.eq_of_mem_replicate hc]
    decide
  star h := by
    rw [String.toList_ofList] at h
    exact absurd (List.eq_of_mem_replicate (h.subset List.mem_cons_self)) (by decide)

theorem outline_replicate (n : Nat) : outline (List.replicate n '?') = ⟨{ ones := n }, []⟩ := by
  induction n with
  | zero => rfl
  | succ n ih => rw [List.replicate_succ, outline, ih]; rfl

/-- Bytes can be told from characters in a text exactly if it has a character of several bytes. -/
theorem forall_utf8Size_iff {text : String} : (∀ c ∈ text.toList, c.utf8Size = 1) ↔
    ∀ glob, IsPlain glob → (MatchesBytes glob text ↔ Matches glob text) := by
  simp only [matches_iff, matchesBytes_iff]
  constructor
  · intro hbytes glob _
    refine fits_congr_spell fun g _ run hrun => ?_
    rw [flatMap_asIs, length_flatMap_utf8_iff.2 fun c hc => hbytes c (hrun hc)]
  · intro hall
    have hagree := hall _ (isPlain_replicate text.toList.length)
    rw [String.toList_ofList, outline_replicate, Fits, Fits, flatMap_asIs] at hagree
    exact length_flatMap_utf8_iff.1 (hagree.2 rfl)

end Inventory.Glob
