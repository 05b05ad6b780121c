import Mathlib
import PimAsm.Proofs.Program.Atomicity
import PimAsm.Proofs.Program.Export

/-! Annotations in a memory image. What a note or a comment holds after a line feed stands on lines of its own, so an
image reads as the words of its program exactly when these lines hold no code. -/

namespace PimAsm

open Text Image

namespace Text

def afterLine (t : List Char) : List Char := (t.dropWhile (· ≠ '\n')).tail

lemma afterLine_append {p : List Char} (h : '\n' ∉ p) (t : List Char) : afterLine (p ++ t) = afterLine t := by
  have hp : ∀ c ∈ p, decide (c ≠ '\n') = true := by
    intro c hc
    simpa using ne_of_mem_of_not_mem hc h
  rw [afterLine, afterLine, List.dropWhile_append_of_pos hp]

end Text

namespace Image

/-- A text that brings no word into an image when it follows a comment mark. -/
def Harmless (t : String) : Prop := read (String.ofList (afterLine t.toList)) = .ok []

instance (t : String) : Decidable (Harmless t) := inferInstanceAs (Decidable (_ = _))

def strays (t : String) : List (List Char) := codes (afterLine t.toList)

lemma harmless_iff {t : String} : Harmless t ↔ strays t = [] := by
  rw [Harmless, read_eq_ok, String.toList_ofList, List.forall₂_nil_right_iff, strays]

lemma strays_append {p : String} (h : OneLine p) (t : String) : strays (p ++ t) = strays t := by
  rw [strays, String.toList_append, afterLine_append h, strays]

lemma strays_oneLine {t : String} (h : OneLine t) : strays t = [] := by
  have hs := strays_append h ""
  rwa [String.append_empty] at hs

lemma codes_comment {a : List Char} (hs : '/' ∉ a) (hn : '\n' ∉ a) (t : List Char) :
    codes (a ++ '/' :: '/' :: t) = codes a ++ codes (afterLine t) := by
  have hline (l : List Char) (hl : '\n' ∉ l) : codes (a ++ '/' :: '/' :: l) = codes a := by
    have ha := beforeComment_append hs []
    rw [List.append_nil] at ha
    rw [codes_of_not_mem (by simp [hn, hl]), codes_of_not_mem hn, codeOf, codeOf, beforeComment_append hs, ha,
      beforeComment, beforeComment]
  by_cases ht : '\n' ∈ t
  · obtain ⟨l, u, rfl, hl⟩ := List.eq_append_cons_of_mem ht
    have hsplit : a ++ '/' :: '/' :: (l ++ '\n' :: u) = (a ++ '/' :: '/' :: l) ++ '\n' :: u := by simp
    rw [hsplit, codes_append, hline l hl, afterLine_append hl]
    rfl
  · have h0 := afterLine_append ht []
    rw [List.append_nil] at h0
    rw [hline t ht, h0]
    exact (List.append_nil _).symm

/-- Code that holds the words `ws` in order, among as many other lines as `extra` has. -/
def Carries (cs : List (List Char)) (ws : List Word) (extra : List (List Char)) : Prop :=
  ∃ base, base.Sublist cs ∧ List.Forall₂ (fun code w => wordOf code = .ok w) base ws ∧
    cs.length = ws.length + extra.length

namespace Carries

variable {cs cs' extra extra' : List (List Char)} {ws ws' : List Word}

lemma followed (h : List.Forall₂ (fun code w => wordOf code = .ok w) cs ws) (extra : List (List Char)) :
    Carries (cs ++ extra) ws extra :=
  ⟨cs, List.sublist_append_left cs extra, h, by rw [List.length_append, h.length_eq]⟩

lemma preceded (h : List.Forall₂ (fun code w => wordOf code = .ok w) cs ws) (extra : List (List Char)) :
    Carries (extra ++ cs) ws extra :=
  ⟨cs, List.sublist_append_right extra cs, h, by rw [List.length_append, h.length_eq, add_comm]⟩

lemma append (h : Carries cs ws extra) (h' : Carries cs' ws' extra') :
    Carries (cs ++ cs') (ws ++ ws') (extra ++ extra') := by
  obtain ⟨base, hs, hf, hl⟩ := h
  obtain ⟨base', hs', hf', hl'⟩ := h'
  refine ⟨base ++ base', hs.append hs', List.rel_append hf hf', ?_⟩
  simp only [List.length_append]
  omega

lemma forall₂_iff (h : Carries cs ws extra) :
    List.Forall₂ (fun code w => wordOf code = .ok w) cs ws ↔ extra = [] := by
  obtain ⟨base, hs, hf, hl⟩ := h
  constructor
  · -- a reading has one word for each line of code, so every other line shows in its length
    intro hc
    have hc := hc.length_eq
    exact List.eq_nil_of_length_eq_zero (by omega)
  · rintro rfl
    have hb : base = cs := hs.eq_of_length (by rw [hf.length_eq, hl]; rfl)
    rwa [hb] at hf

end Carries

end Image

def Record.strays (r : Record) : List (List Char) := r.comment.elim [] Image.strays

namespace Export

variable {r : Record}

lemma strays_remark (h : OneLine r.source) : strays (remark {} r) = r.strays := by
  rw [remark, Record.strays]
  cases r.comment with
  | none => simpa using strays_oneLine h
  | some c =>
    by_cases hc : c = ""
    · have h0 : strays "" = [] := strays_oneLine (by decide)
      simpa [hc, h0] using strays_oneLine h
    · have ht : OneLine (r.source ++ "; ") := by simpa +decide using h
      simpa [hc, String.append_assoc] using strays_append ht c

lemma codes_commentText (t : String) : codes (commentText t).toList = strays t := by
  have hl : (commentText t).toList = [] ++ '/' :: '/' :: (" " ++ t).toList := by simp [commentText]
  rw [hl, codes_comment (by simp) (by simp)]
  exact strays_append (by decide) t

lemma codes_lines (t rest : String) : codes (t ++ "\n" ++ rest).toList = codes t.toList ++ codes rest.toList := by
  rw [← codes_append]
  simp

lemma codes_newline (t : String) : codes (t ++ "\n").toList = codes t.toList := by
  have h := codes_lines t ""
  rw [String.append_empty] at h
  exact h.trans (List.append_nil _)

lemma codes_imageText (o : ExportOptions) (r : Record) (rest : String) :
    codes (imageText o r ++ rest).toList = codes (imageText o r).toList ++ codes rest.toList := by
  rw [imageText]
  cases render? ⟨"", Segment.binaryText o.separator⟩ o r with
  | none =>
    rw [Option.elim_none, String.empty_append]
    rfl
  | some t => rw [Option.elim_some, codes_lines, codes_newline]

lemma underscore_separator : ∀ c ∈ "_".toList, c = '_' := by simp

lemma codes_annotated (segs : List Segment) (note : String) :
    codes (Segment.binaryText "_" segs ++ "  " ++ commentText note).toList =
      codes (Segment.binaryText "_" segs ++ "  ").toList ++ strays note := by
  have hw := binaryText_isCode underscore_separator segs
  have hl : (Segment.binaryText "_" segs ++ "  " ++ commentText note).toList =
      (Segment.binaryText "_" segs ++ "  ").toList ++ '/' :: '/' :: (" " ++ note).toList := by
    simp [commentText]
  have hn {d : Char} (hd : ¬ IsCode d) (hb : d ≠ ' ') : d ∉ (Segment.binaryText "_" segs ++ "  ").toList := by
    simpa [hb] using not_mem_code hw hd
  rw [hl, codes_comment (hn (by decide) (by decide)) (hn (by decide) (by decide))]
  exact congrArg _ (strays_append (by decide) note)

lemma carries_op {i : Instr} (hi : i.Fits) (note : String) :
    Carries (codes ((if note = "" then Segment.binaryText "_" (i.subWord.fullSegments i.engine)
      else Segment.binaryText "_" (i.subWord.fullSegments i.engine) ++ "  " ++ commentText note) ++ "\n").toList)
      [i.word] (strays note) := by
  have hf := Instr.subWord_filled hi
  have h0 : strays "" = [] := strays_oneLine (by decide)
  split_ifs with hn
  · have hr := read_eq_ok.mp (read_laid (.line (shows_word hf i.engine underscore_separator)))
    have hc := Carries.followed hr []
    rwa [List.append_nil, ← h0, ← hn] at hc
  · -- the code before the mark is the same as with an empty comment
    have hs := shows_annotated hf i.engine underscore_separator (by decide : OneLine "")
    have hr := read_eq_ok.mp (read_laid (.line hs))
    rw [codes_newline, ← commentText, codes_annotated, h0, List.append_nil] at hr
    rw [codes_newline, codes_annotated]
    exact Carries.followed hr (strays note)

lemma carries_macro {is : List Instr} (hi : ∀ i ∈ is, i.Fits) (note : String) :
    Carries (codes (String.intercalate "\n" (["" ++ commentText ("---- MACRO: " ++ note)] ++
        (is.map fun i => i.subWord.fullSegments i.engine).map (Segment.binaryText "_") ++
        ["" ++ commentText "---- End of MACRO"]) ++ "\n").toList)
      (is.map Instr.word) (strays note) := by
  have hend : Shows ("" ++ commentText "---- End of MACRO") [] := shows_comment (by decide)
  have hw := List.rel_append (words_told (image_told (o := {}) underscore_separator) hi) (.cons hend .nil)
  have hr := read_eq_ok.mp (read_shows hw)
  rw [join_lines (by simp), List.map_map, List.append_assoc, List.singleton_append, List.map_cons, String.join_cons,
    codes_lines, String.empty_append, codes_commentText, strays_append (by decide)]
  have hf : (is.map fun i => [i.word]).flatten = is.map Instr.word := List.map_eq_flatMap.symm
  rw [List.flatten_append, hf, List.flatten_singleton, List.append_nil] at hr
  exact Carries.preceded hr (strays note)

lemma carries_record (h : r.Sound) :
    Carries (codes (imageText {} r.encoded).toList) (r.body.instrs.map Instr.word) r.strays := by
  have hs := strays_remark h.source
  have hfits := h.fits
  have hseg := r.segments_encoded
  have hcode : r.encoded.code = some (r.body.instrs.map Instr.subWord) := rfl
  have hbody : r.encoded.body = r.body := rfl
  have hrem : remark {} r.encoded = remark {} r := rfl
  rw [← hs]
  unfold imageText render?
  rw [hcode, hbody, hseg, hrem]
  cases hb : r.body with
  | gemv op | vv op =>
    rw [hb] at hfits
    exact carries_op (hfits _ (List.mem_singleton_self _)) _
  | gemvMacro mac ops | vvMacro mac ops =>
    rw [hb] at hfits
    exact carries_macro hfits _
  | comment =>
    rw [hs, Record.strays]
    have hcom : r.encoded.comment = r.comment := rfl
    rw [hcom]
    cases r.comment with
    | none => exact ⟨[], .refl _, .nil, rfl⟩
    | some c =>
      show Carries (codes ("" ++ commentText c ++ "\n").toList) [] (strays c)
      rw [String.empty_append, codes_newline, codes_commentText]
      exact Carries.followed .nil (strays c)

lemma carries_verilog {rs : List Record} (h : ∀ r ∈ rs, r.Sound) :
    Carries (codes (verilog {} (rs.map Record.encoded)).toList) ((rs.flatMap (·.body.instrs)).map Instr.word)
      (rs.flatMap Record.strays) := by
  induction rs with
  | nil => exact ⟨[], .refl _, .nil, rfl⟩
  | cons r rs ih =>
    rw [List.map_cons, verilog_cons, codes_imageText, List.flatMap_cons, List.flatMap_cons, List.map_append]
    exact (carries_record (h r (by simp))).append (ih fun r hr => h r (by simp [hr]))

end Export

lemma Call.Appends.noted_or_comment {c : Config} {note : Option String} {call : Call} {r : Record}
    (h : call.Appends c note r) : Noted note r.comment ∨ ∃ text, call = .comment text ∧ r.comment = some text := by
  cases h with
  | gemv _ _ noted | gemvMacro _ _ noted | vvMacro _ noted => exact Or.inl noted
  | vv => exact Or.inl (noted_note note)
  | comment called => exact Or.inr ⟨_, called, rfl⟩

namespace Session

variable {s s' : Session} {as : List Action}

def after (s : Session) (as : List Action) : Session := as.foldl (fun s a => (s.perform a).1) s

def Action.annotation? : Action → Option String
  | .note text => some text
  | .call (.comment text) => some text
  | _ => none

/-- The action without its annotation: no note, and a comment without a text. -/
def Action.plain? : Action → Option Action
  | .note _ => none
  | .call (.comment _) => some (.call (.comment ""))
  | a => some a

def Harmless (s : Session) : Prop := ∀ r ∈ s.records, ∀ t, r.comment = some t → Image.Harmless t

lemma harmless_iff : s.Harmless ↔ s.records.flatMap Record.strays = [] := by
  rw [List.flatMap_eq_nil_iff, Harmless]
  refine forall₂_congr fun r _ => ?_
  rw [Record.strays]
  cases r.comment with
  | none => simp
  | some c => simp [Image.harmless_iff]

lemma Sound.after (h : s.Sound) (as : List Action) : (s.after as).Sound := by
  induction as generalizing s with
  | nil => exact h
  | cons a as ih => exact ih (h.perform a)

lemma Sound.read_iff_harmless (h : s.Sound) : ∃ text ws, (s.verilog {}).2 = .ok text ∧ s.words.2 = .ok ws ∧
    (Image.read text = .ok ws ↔ s.Harmless) := by
  refine ⟨_, _, by rw [verilog, h.assembledThen_eq, Session.finished], by rw [h.words_eq], ?_⟩
  rw [read_eq_ok, (Export.carries_verilog h.records).forall₂_iff, harmless_iff]

namespace Alike

lemma words_eq (h : Alike s s') (hs : s.Sound) (hs' : s'.Sound) : s'.words.2 = s.words.2 := by
  have hb : s'.records.flatMap (·.body.instrs) = s.records.flatMap (·.body.instrs) := by
    simpa [List.flatMap_map] using congrArg (List.flatMap Body.instrs) h.bodies
  rw [hs.words_eq, hs'.words_eq, hb]

lemma comment (h : Alike s s') (t t' : String) :
    Alike (s.issue (.comment t)).1 (s'.issue (.comment t')).1 where
  config := by rw [config_issue, config_issue, h.config]
  bodies := by
    rw [bodies_issue, bodies_issue, h.bodies]
    rfl

lemma after_plain (h : Alike s s') (as : List Action) : Alike (s.after as) (s'.after (as.filterMap Action.plain?)) := by
  induction as generalizing s s' with
  | nil => exact h
  | cons a as ih =>
    cases a with
    | note text => exact ih ⟨h.config, h.bodies⟩
    | call call =>
      cases call with
      | comment text => exact ih (h.comment text "")
      | _ => exact ih (h.perform _)
    | _ => exact ih (h.perform _)

end Alike

/-- No annotation of the session, also not the waiting note, brings code into an image. -/
structure Quiet (s : Session) : Prop where
  note : ∀ t, s.note = some t → Image.Harmless t
  records : s.Harmless

namespace Quiet

lemma new (c : Config) : (new c).Quiet := ⟨nofun, nofun⟩

lemma records_of_ok (h : s.Quiet) (hs : s.Sound) {call : Call} (hc : ∀ t, call = .comment t → Image.Harmless t)
    {rs : List Record} (hr : call.records s.config s.note = .ok rs) :
    ∀ r ∈ rs, ∀ t, r.comment = some t → Image.Harmless t := by
  intro r hm t ht
  rcases (Call.records_appends hs.config hr r hm).noted_or_comment with hn | ⟨text, hcall, hcom⟩
  · rw [Image.harmless_iff]
    rcases hn t ht with hl | ⟨p, u, hp, hu, rfl⟩
    · exact strays_oneLine hl
    · rw [strays_append hp]
      exact Image.harmless_iff.mp (h.note u hu)
  · obtain rfl : text = t := Option.some.inj (hcom.symm.trans ht)
    exact hc text hcall

lemma issue (h : s.Quiet) (hs : s.Sound) {call : Call} (hc : ∀ t, call = .comment t → Image.Harmless t) :
    (s.issue call).1.Quiet := by
  constructor
  · intro t ht
    rw [note_issue] at ht
    split_ifs at ht
    exact h.note t ht
  · cases hr : call.records s.config s.note with
    | error e =>
      rw [issue_of_error hr]
      exact h.records
    | ok rs =>
      rw [issue_of_ok hr]
      exact List.forall_mem_append.mpr ⟨h.records, h.records_of_ok hs hc hr⟩

lemma recoded (h : s.Quiet) (hr : Recoded s s') : s'.Quiet := by
  have hc : s'.records.map Record.comment = s.records.map Record.comment := hr.map_eq fun _ => rfl
  refine ⟨fun t ht => h.note t (hr.note ▸ ht), fun r hm t ht => ?_⟩
  have hm' : some t ∈ s.records.map Record.comment := hc ▸ ht ▸ List.mem_map_of_mem hm
  obtain ⟨q, hq, hqt⟩ := List.mem_map.mp hm'
  exact h.records q hq t hqt

lemma perform (h : s.Quiet) (hs : s.Sound) {a : Action} (ha : ∀ t, a.annotation? = some t → Image.Harmless t) :
    (s.perform a).1.Quiet := by
  cases a with
  | call call =>
    apply h.issue hs
    rintro t rfl
    exact ha t rfl
  | note text => exact ⟨ha, h.records⟩
  | setup p =>
    rcases s.setup_cases p with ⟨c, he⟩ | ⟨e, he⟩
    · simpa only [Session.perform, he] using new c
    · simpa only [Session.perform, he] using h
  | reset => exact new s.config
  | assemble | words | verilog o | cProgram name o => exact h.recoded (s.perform_recoded rfl)

lemma after (h : s.Quiet) (hs : s.Sound) (ha : ∀ a ∈ as, ∀ t, a.annotation? = some t → Image.Harmless t) :
    (s.after as).Quiet := by
  induction as generalizing s with
  | nil => exact h
  | cons a as ih => exact ih (h.perform hs (ha a (by simp))) (hs.perform a) fun b hb => ha b (by simp [hb])

end Quiet

theorem read_annotated {p : Params} {c : Config} (hp : p.validate = .ok c) {as as' : List Action}
    (h : as.filterMap Action.plain? = as'.filterMap Action.plain?) :
    let s := (new c).after as
    let s' := (new c).after as'
    ∃ text text' ws, (s.verilog {}).2 = .ok text ∧ (s'.verilog {}).2 = .ok text' ∧
      s.words.2 = .ok ws ∧ s'.words.2 = .ok ws ∧
      (Image.read text = .ok ws ↔ s.Harmless) ∧
      (s.Harmless → (Image.read text' = Image.read text ↔ s'.Harmless)) ∧
      ((∀ a ∈ as ++ as', ∀ t, a.annotation? = some t → Image.Harmless t) → s.Harmless ∧ s'.Harmless) := by
  intro s s'
  have hn : (new c).Sound := .new (Params.validate_valid hp)
  have hs : s.Sound := hn.after as
  have hs' : s'.Sound := hn.after as'
  -- both runs are alike to the one run without annotations
  have ha : Alike s s' := by
    have h1 := (Alike.refl (new c)).after_plain as
    have h2 := (Alike.refl (new c)).after_plain as'
    rw [← h] at h2
    exact h1.trans h2.symm
  obtain ⟨text, ws, ht, hw, hr⟩ := hs.read_iff_harmless
  obtain ⟨text', ws', ht', hw', hr'⟩ := hs'.read_iff_harmless
  have he : ws' = ws := Except.ok.inj ((hw'.symm.trans (ha.words_eq hs hs')).trans hw)
  rw [he] at hw' hr'
  refine ⟨text, text', ws, ht, ht', hw, hw', hr, fun hq => ?_, fun hall => ?_⟩
  · rw [hr.mpr hq, hr']
  · obtain ⟨hall, hall'⟩ := List.forall_mem_append.mp hall
    exact ⟨((Quiet.new c).after hn hall).records, ((Quiet.new c).after hn hall').records⟩

theorem read_annotated_blank :
    let as := [Action.note "seed\r\n\t// more", .call (.comment "a\n\n"), .call .mvNop]
    let as' := [Action.call (.comment "b"), .note "01", .call .mvNop]
    ({} : Params).validate = .ok {} ∧ as.filterMap Action.plain? = as'.filterMap Action.plain? ∧
      (∀ a ∈ as ++ as', ∀ t, a.annotation? = some t → Image.Harmless t) ∧
      ∃ text text', ((new.after as).verilog {}).2 = .ok text ∧ ((new.after as').verilog {}).2 = .ok text' ∧
        Image.read text' = Image.read text := by
  intro as as'
  have hp : ({} : Params).validate = .ok {} := rfl
  have h : as.filterMap Action.plain? = as'.filterMap Action.plain? := rfl
  have hall : ∀ a ∈ as ++ as', ∀ t, a.annotation? = some t → Image.Harmless t := by
    have h1 : Image.Harmless "seed\r\n\t// more" := by decide
    have h2 : Image.Harmless "a\n\n" := by decide
    have h3 : Image.Harmless "b" := by decide
    have h4 : Image.Harmless "01" := by decide
    simp [as, as', Action.annotation?, h1, h2, h3, h4]
  obtain ⟨text, text', ws, ht, ht', -, -, -, hr, hq⟩ := read_annotated hp h
  obtain ⟨hs, hs'⟩ := hq hall
  exact ⟨hp, h, hall, text, text', ht, ht', (hr hs).mpr hs'⟩

/-- A comment of two lines, the second of them code. -/
theorem read_annotated_injected :
    let as := [Action.call (.comment "x\n00_0001_0000000101_0000000000001010"), .call .mvNop]
    let as' := [Action.call (.comment "x"), .call .mvNop]
    as.filterMap Action.plain? = as'.filterMap Action.plain? ∧
      ∃ text text', ((new.after as).verilog {}).2 = .ok text ∧ ((new.after as').verilog {}).2 = .ok text' ∧
        Image.read text = .ok [0x0405000A, 0] ∧ Image.read text' = .ok [0] := by
  refine ⟨rfl, "// x\n00_0001_0000000101_0000000000001010\n00_0000_0000000000_0000000000000000  // MV_NOP\n",
    "// x\n00_0000_0000000000_0000000000000000  // MV_NOP\n", ?_, ?_, ?_, ?_⟩ <;> decide

end Session

end PimAsm
