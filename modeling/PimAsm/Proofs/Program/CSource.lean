import Mathlib
import PimAsm.Proofs.Hexadecimal
import PimAsm.Proofs.Lines
import PimAsm.Proofs.Program.Layout

/-! The C source of a program holds its words. The lines of its array start with a blank, unless they are empty, so a
comment never looks like the line that opens or closes the array, and outside of comments the only literals are the
words. -/

namespace PimAsm

open Text Numeral

namespace CSource

/-- The digits after each `0x` of a text. -/
def literals : List Char → List (List Char)
  | [] => []
  | '0' :: 'x' :: cs => cs.takeWhile (hexDigit? · |>.isSome) :: literals cs
  | _ :: cs => literals cs

lemma literals_of_not_mem {cs : List Char} (h : 'x' ∉ cs) : literals cs = [] := by
  fun_induction literals cs with
  | case1 => rfl
  | case2 cs ih => simp at h
  | case3 c cs hne ih => exact ih fun hm => h (by simp [hm])

lemma literals_append {a : List Char} (h : '0' ∉ a) (t : List Char) : literals (a ++ t) = literals t := by
  induction a with
  | nil => rfl
  | cons c a ih =>
    rw [List.cons_append, literals, ih fun hm => h (by simp [hm])]
    rintro _ rfl
    simp at h

def lineLiterals (ls : List (List Char)) : List (List Char) := ls.flatMap fun l => literals (beforeComment l)

def opening : String := "static const uint32_t word_arr[] = \x7b"

def closing : String := "\x7d;"

/-- The lines `body` stand between the one line that opens the array of words and the first line after it that closes
the array. -/
def ArrayBody (ls body : List (List Char)) : Prop :=
  ∃ before after, ls = before ++ opening.toList :: (body ++ closing.toList :: after) ∧
    opening.toList ∉ before ++ body ++ after ∧ closing.toList ∉ body

structure Lists (line : String) (ws : List Word) : Prop where
  oneLine : OneLine line
  blank : ∀ c ∈ line.toList.head?, c = ' '
  plain : '\r' ∉ beforeComment line.toList
  literals : literals (beforeComment line.toList) = ws.map fun w => (hexUpper 8 w.toNat).toList

variable {code t : String} {ws : List Word}

def codeChars : List Char := ' ' :: ',' :: 'x' :: upperDigits

lemma not_mem_code (h : ∀ c ∈ code.toList, c ∈ codeChars) {d : Char} (hd : d ∉ codeChars) : d ∉ code.toList :=
  fun hm => hd (h d hm)

lemma lists_code (h : ∀ c ∈ code.toList, c ∈ codeChars) (hb : ∀ c ∈ code.toList.head?, c = ' ')
    (hl : literals code.toList = ws.map fun w => (hexUpper 8 w.toNat).toList) : Lists code ws := by
  have hc : beforeComment code.toList = code.toList := by
    simpa [beforeComment] using beforeComment_append (not_mem_code h (d := '/') (by decide)) []
  exact ⟨not_mem_code h (by decide), hb, by rw [hc]; exact not_mem_code h (by decide), by rwa [hc]⟩

lemma lists_annotated (h : ∀ c ∈ code.toList, c ∈ codeChars) (hb : ∀ c ∈ code.toList.head?, c = ' ') (hne : code ≠ "")
    (hl : literals code.toList = ws.map fun w => (hexUpper 8 w.toNat).toList) (ht : OneLine t) :
    Lists (code ++ Export.commentText t) ws := by
  have hc : beforeComment (code ++ Export.commentText t).toList = code.toList := by
    rw [String.toList_append, beforeComment_append (not_mem_code h (by decide))]
    simp [Export.commentText, beforeComment]
  refine ⟨?_, ?_, by rw [hc]; exact not_mem_code h (by decide), by rwa [hc]⟩
  · rw [oneLine_append]
    exact ⟨not_mem_code h (by decide), by simpa +decide [Export.commentText] using ht⟩
  · cases hs : code.toList with
    | nil => exact absurd (String.toList_injective hs) hne
    | cons d ds => simpa [hs] using hb

end CSource

namespace Export

open CSource

lemma toList_cWord (segs : List Segment) (pad : String) :
    (cWord segs ++ pad).toList = [' ', ' ', ' ', ' '] ++
      '0' :: 'x' :: ((hexUpper 8 (Segment.pack segs)).toList ++ ',' :: ' ' :: pad.toList) := by
  simp [cWord, cIndent, Segment.hexText]

lemma literals_cWord (segs : List Segment) {pad : String} (hp : 'x' ∉ pad.toList) :
    literals (cWord segs ++ pad).toList = [(hexUpper 8 (Segment.pack segs)).toList] := by
  have hu : upperDigits.all (hexDigit? · |>.isSome) = true := by decide
  have hd : ∀ c ∈ (hexUpper 8 (Segment.pack segs)).toList, (hexDigit? c).isSome = true :=
    fun c hc => List.all_eq_true.mp hu c (mem_hexUpper hc)
  have hx : 'x' ∉ (hexUpper 8 (Segment.pack segs)).toList := fun hm => absurd (mem_hexUpper hm) (by decide)
  rw [toList_cWord, literals_append (by decide), literals, List.takeWhile_append_of_pos hd,
    List.takeWhile_cons_of_neg (by decide), List.append_nil, literals_of_not_mem (by simp [hx, hp])]

lemma cWord_chars (segs : List Segment) (pad : String) (hp : ∀ c ∈ pad.toList, c ∈ codeChars) :
    ∀ c ∈ (cWord segs ++ pad).toList, c ∈ codeChars := by
  have hh : ∀ c ∈ (hexUpper 8 (Segment.pack segs)).toList, c ∈ codeChars := by
    intro c hc
    simp [codeChars, mem_hexUpper hc]
  have hb : ' ' ∈ codeChars := by decide
  simp only [toList_cWord, List.forall_mem_append, List.forall_mem_cons]
  exact ⟨⟨hb, hb, hb, hb, by simp⟩, by decide, by decide, hh, by decide, hb, hp⟩

lemma cWord_told : (Style.mk cIndent cWord).Told Lists := by
  have hhead (segs : List Segment) (pad : String) : ∀ c ∈ (cWord segs ++ pad).toList.head?, c = ' ' := by
    rw [toList_cWord]
    simp
  have hlit {i : Instr} (hi : i.Fits) {pad : String} (hp : 'x' ∉ pad.toList) :
      literals (cWord (i.subWord.fullSegments i.engine) ++ pad).toList =
        [i.word].map fun w => (hexUpper 8 w.toNat).toList := by
    have hf := Instr.subWord_filled hi
    rw [literals_cWord _ hp, hf.pack_full, ← hf.toNat_word]
    rfl
  refine ⟨lists_code (by simp) (by simp) rfl, fun ht => ?_, fun {i} hi => ?_, fun {i t} hi ht => ?_⟩
  · exact lists_annotated (by simp [cIndent, codeChars]) (by simp [cIndent]) (by decide) rfl ht
  · have h := lists_code (cWord_chars (i.subWord.fullSegments i.engine) "" (by simp)) (hhead _ _)
      (hlit hi (by simp))
    rwa [String.append_empty] at h
  · refine lists_annotated (cWord_chars _ _ (by simp [codeChars])) (hhead _ _) ?_ (hlit hi (by simp)) ht
    intro h0
    have ht := congrArg String.toList h0
    rw [toList_cWord] at ht
    simp at ht

def footer (name : String) (c : Config) : List String := [
  "", "", "Davinci_Prog " ++ name ++ " = \x7b", "    word_arr,", "    sizeof(word_arr)/sizeof(word_arr[0]),   // size",
  "    " ++ decimal c.fracWidth ++ ",    // fracWidth", "    " ++ decimal (c.maxRow.getD 0) ++ ",   // mvMaxRow",
  "    " ++ decimal (c.maxCol.getD 0) ++ ",   // mvMaxCol", "    " ++ decimal c.gemv.regWidth ++ ",   // regWidth",
  "    " ++ decimal c.gemv.idWidth ++ ",    // idWidth", "    " ++ decimal c.gemv.peCount ++ ",   // peCount", "\x7d;"]

-- as one join the pieces need no reassociation
lemma cProgram_eq_join (name : String) (o : ExportOptions) (c : Config) (rs : List Record) :
    cProgram name o c rs = String.join [
      "#include \"", headerName, "\"\n\n\nstatic const uint32_t word_arr[] = \x7b\n",
      String.intercalate "\n" (renderAll ⟨cIndent, cWord⟩ o rs), "\n\x7d;\n\n\nDavinci_Prog ", name,
      " = \x7b\n    word_arr,\n", "    sizeof(word_arr)/sizeof(word_arr[0]),   // size\n",
      "    ", decimal c.fracWidth, ",    // fracWidth\n", "    ", decimal (c.maxRow.getD 0), ",   // mvMaxRow\n",
      "    ", decimal (c.maxCol.getD 0), ",   // mvMaxCol\n", "    ", decimal c.gemv.regWidth, ",   // regWidth\n",
      "    ", decimal c.gemv.idWidth, ",    // idWidth\n", "    ", decimal c.gemv.peCount, ",   // peCount\n",
      "\x7d;\n"] := by
  rw [String.join]
  simp only [List.foldl_cons, List.foldl_nil, String.empty_append]
  rfl

lemma toList_cProgram (name : String) (o : ExportOptions) (c : Config) (rs : List Record) :
    (cProgram name o c rs).toList =
      (String.join (["#include \"davinci_prog.h\"", "", "", opening].map (· ++ "\n"))).toList ++
      ((String.intercalate "\n" (renderAll ⟨cIndent, cWord⟩ o rs) ++ "\n").toList ++
      (String.join ((closing :: footer name c).map (· ++ "\n"))).toList) := by
  rw [cProgram_eq_join]
  simp [footer, opening, closing, headerName]

lemma footer_oneLine {name : String} (hn : OneLine name) (c : Config) : ∀ l ∈ footer name c, OneLine l := by
  have hp : OneLine "Davinci_Prog " ∧ OneLine " = \x7b" := by decide
  simp [footer, hn, hp]
  decide

lemma footer_head (name : String) (c : Config) : ∀ l ∈ footer name c, 's' ∉ l.toList.head? := by
  simp [footer]

end Export

namespace CSource

lemma lists_read {ls : List String} {ls' : List (List Char)} (hs : List.Forall₂ Same ls ls') {wss : List (List Word)}
    (h : List.Forall₂ Lists ls wss) :
    (∀ l ∈ ls', ∀ c ∈ l.head?, c = ' ') ∧
      lineLiterals ls' = wss.flatten.map fun w => (hexUpper 8 w.toNat).toList := by
  induction h generalizing ls' with
  | nil =>
    cases hs
    simp [lineLiterals]
  | cons hl _ ih =>
    cases hs with
    | cons hsame hs =>
      obtain ⟨hb, hw⟩ := ih hs
      refine ⟨List.forall_mem_cons.mpr ⟨fun c hc => hl.blank c (hsame.head? hc), hb⟩, ?_⟩
      rw [lineLiterals, List.flatMap_cons, hsame.beforeComment hl.plain, hl.literals, ← lineLiterals, hw,
        List.flatten_cons, List.map_append]

end CSource

open CSource

lemma Export.cProgram_array {o : ExportOptions} {rs : List Record} {ws : List Word}
    (h : Laid Lists (String.intercalate "\n" (renderAll ⟨cIndent, cWord⟩ o rs) ++ "\n") ws) {name : String}
    (hn : OneLine name) (c : Config) :
    ∃ body, ArrayBody (lines (cProgram name o c rs).toList) body ∧
      lineLiterals body = ws.map fun w => (hexUpper 8 w.toNat).toList := by
  obtain ⟨ls, wss, ht, hl, rfl⟩ := h
  have hone : ∀ l ∈ ls, OneLine l := ((List.forall₂_and_left ls wss).mp (hl.imp fun _ _ h => ⟨h.oneLine, h⟩)).1
  set foot := (String.join ((closing :: footer name c).map (· ++ "\n"))).toList with hfoot
  obtain ⟨head', hhead, hsame⟩ := lines_join ["#include \"davinci_prog.h\"", "", "", opening] (by decide)
    ((String.join (ls.map (· ++ "\n"))).toList ++ foot)
  obtain ⟨body, hbody, hsb⟩ := lines_join ls hone foot
  obtain ⟨foot', hf, hsf⟩ := lines_join (closing :: footer name c)
    (List.forall_mem_cons.mpr ⟨by decide, footer_oneLine hn c⟩) []
  rw [List.append_nil, ← hfoot, lines, List.append_nil] at hf
  obtain ⟨hblank, hwords⟩ := lists_read hsb hl
  cases hsf with
  | @cons _ _ _ after hclose hafter =>
    refine ⟨body, ⟨["#include \"davinci_prog.h\"".toList, [], []], after, ?_, ?_, ?_⟩, hwords⟩
    · rw [toList_cProgram, ht, hhead, hbody, hf, Same.eq_map hsame (by decide), hclose.eq (by decide)]
      rfl
    · -- no line of the array or after it starts as the opening one does
      have hfirst : 's' ∈ opening.toList.head? := rfl
      rw [List.mem_append, List.mem_append, not_or, not_or]
      refine ⟨⟨by decide, fun hm => absurd (hblank _ hm 's' hfirst) (by decide)⟩, fun hm => ?_⟩
      exact Same.not_mem_head? hafter (footer_head name c) _ hm hfirst
    · exact fun hm => absurd (hblank _ hm '\x7d' rfl) (by decide)

theorem source_words {s : Session} (h : s.Reachable) (hc : ∀ r ∈ s.records, ∀ c, r.comment = some c → OneLine c)
    {name : String} (hn : OneLine name) (o : ExportOptions) :
    ∃ text ws body, (s.cProgram name o).2 = .ok text ∧ s.words.2 = .ok ws ∧ ArrayBody (lines text.toList) body ∧
      (lineLiterals body).map readHex? = ws.map (fun w => some w.toNat) ∧
      ∀ d ∈ lineLiterals body, d.length = 8 ∧ ∀ c ∈ d, c ∈ upperDigits := by
  have hs := h.sound
  have hlaid := (Export.laid_renderAll (o := o) Export.cWord_told hs.records hc).intercalate Export.cWord_told.blank
  obtain ⟨body, hbody, hwords⟩ := Export.cProgram_array hlaid hn s.config
  refine ⟨_, _, body, ?_, by rw [hs.words_eq], hbody, ?_, ?_⟩
  · rw [Session.cProgram, hs.assembledThen_eq, Session.finished]
  · rw [hwords, List.map_map]
    exact List.map_congr_left fun w _ => readHex?_hexUpper 8 w.toNat
  · rw [hwords]
    intro d hd
    obtain ⟨w, -, rfl⟩ := List.mem_map.mp hd
    exact ⟨length_hexUpper (by decide) w.isLt, fun c hc => mem_hexUpper hc⟩

/-- A comment that looks like the end of the array, and a word whose note looks like another one. -/
def lookalikes : Session :=
  (((Session.new.perform (.call (.comment "\x7d;"))).1.perform (.note "0xFF,\r")).1.perform (.call .vvNop)).1

theorem source_words_lookalikes :
    lookalikes.Reachable ∧ lookalikes.records.map Record.comment = [some "\x7d;", some "0xFF,\r"] ∧
    ∃ text body, (lookalikes.cProgram "prog" {}).2 = .ok text ∧ lookalikes.words.2 = .ok [1073741824] ∧
      ArrayBody (lines text.toList) body ∧ (lineLiterals body).map readHex? = [some 1073741824] := by
  have h : lookalikes.Reachable := ((Session.Reachable.fresh.perform _).perform _).perform _
  have hr : lookalikes.records.map Record.comment = [some "\x7d;", some "0xFF,\r"] := rfl
  have hc : ∀ r ∈ lookalikes.records, ∀ c, r.comment = some c → OneLine c := by
    intro r hm c hc
    have hm := List.mem_map_of_mem (f := Record.comment) hm
    rw [hr, hc] at hm
    simp only [List.mem_cons, Option.some.injEq, List.not_mem_nil, or_false] at hm
    rcases hm with rfl | rfl <;> decide
  obtain ⟨text, ws, body, ht, hw, hb, hread, -⟩ := source_words h hc (by decide : OneLine "prog") {}
  have hw' : lookalikes.words.2 = .ok [1073741824] := rfl
  obtain rfl := Except.ok.inj (hw.symm.trans hw')
  exact ⟨h, hr, text, body, ht, hw', hb, hread⟩

end PimAsm
