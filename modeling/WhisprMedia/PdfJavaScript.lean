import WhisprMedia.ContentSafety
import Mathlib.Data.List.Infix

/-! Names of JavaScript entries in a PDF: which of the spellings that a reader of the document
recognises are found by the scan for fixed substrings. -/
namespace WhisprMedia

/-- The bytes of an ASCII text. -/
def asciiBytes (text : String) : Buffer := text.toList.map fun c => UInt8.ofNat c.toNat

/-- The bytes that end a name: white space and delimiters. -/
def PDF_NAME_ENDS : List UInt8 :=
  [0x00, 0x09, 0x0a, 0x0c, 0x0d, 0x20,
    0x28, 0x29, 0x3c, 0x3e, 0x5b, 0x5d, 0x7b, 0x7d, 0x2f, 0x25]

def PDF_JS_NAMES : List String := ["/JS", "/JavaScript"]

/-- A name that holds a script, with the byte that ends it, inside the window. -/
def HasScriptName (window : Buffer) : Prop :=
  ∃ name ∈ PDF_JS_NAMES, ∃ b ∈ PDF_NAME_ENDS, asciiBytes name ++ [b] <:+: window

/-- The bytes after `/JS` that the scan looks for: space, CR, LF, `(` and `<`. -/
def SCANNED_ENDS : List UInt8 := [0x20, 0x0d, 0x0a, 0x28, 0x3c]

/-- A spelling that the scan knows: the long name, or the short one before one of five bytes. -/
def HasScannedName (window : Buffer) : Prop :=
  asciiBytes "/JavaScript" <:+: window ∨ ∃ b ∈ SCANNED_ENDS, asciiBytes "/JS" ++ [b] <:+: window

def pdfJavaScript : Err :=
  .unprocessableEntity "PDF contains embedded JavaScript which is not permitted"

theorem includes_iff {α : Type} [BEq α] [LawfulBEq α] (s t : List α) :
    includes s t = true ↔ t <:+: s := by
  unfold includes
  rw [List.any_eq_true, List.infix_iff_prefix_suffix]
  constructor
  · rintro ⟨u, hu, hp⟩
    exact ⟨u, List.isPrefixOf_iff_prefix.mp hp, (List.mem_tails u s).mp hu⟩
  · rintro ⟨u, hp, hu⟩
    exact ⟨u, (List.mem_tails u s).mpr hu, List.isPrefixOf_iff_prefix.mpr hp⟩

theorem latin1_byte_injective : Function.Injective fun b : UInt8 => Char.ofNat b.toNat := by
  intro b b' h
  have hb : ∀ n < 256, (Char.ofNat n).toNat = n := fun n hn => by
    rw [Char.ofNat, dif_pos (Or.inl (by omega))]
    rfl
  have hval := congrArg Char.toNat h
  dsimp only at hval
  rw [hb _ b.toNat_lt, hb _ b'.toNat_lt] at hval
  exact UInt8.toNat_inj.mp hval

/-- One byte is one character, so the text contains a text when the bytes contain its bytes. -/
theorem latin1_infix {window : Buffer} {bytes : Buffer} :
    latin1 bytes <:+: latin1 window ↔ bytes <:+: window := by
  constructor
  · rintro ⟨before, after, h⟩
    obtain ⟨l, after', hw, hl, -⟩ := List.map_eq_append_iff.mp h.symm
    obtain ⟨before', bytes', rfl, -, hb⟩ := List.map_eq_append_iff.mp hl
    rw [List.map_injective_iff.mpr latin1_byte_injective hb] at hw
    exact ⟨before', after', hw.symm⟩
  · intro h
    exact h.map _

/-- The tokens of the scan as bytes. -/
theorem tokens_latin1 : PDF_JS_TOKENS.map String.toList =
    [asciiBytes "/JS" ++ [0x20], asciiBytes "/JavaScript", asciiBytes "/JS" ++ [0x0d],
      asciiBytes "/JS" ++ [0x0a], asciiBytes "/JS" ++ [0x28], asciiBytes "/JS" ++ [0x3c]].map
        latin1 := by
  simp [PDF_JS_TOKENS, asciiBytes, latin1]

/-- The scan finds exactly the spellings it knows. -/
theorem scan_iff (window : Buffer) :
    (PDF_JS_TOKENS.any fun token => includes (latin1 window) token.toList) = true ↔
      HasScannedName window := by
  have htokens : (PDF_JS_TOKENS.any fun token => includes (latin1 window) token.toList) = true ↔
      ∃ t ∈ PDF_JS_TOKENS.map String.toList, t <:+: latin1 window := by
    simp only [List.any_eq_true, includes_iff, List.mem_map, exists_exists_and_eq_and]
  rw [htokens, tokens_latin1]
  simp only [List.mem_map, exists_exists_and_eq_and, latin1_infix]
  unfold HasScannedName SCANNED_ENDS
  simp only [List.mem_cons, List.not_mem_nil, or_false, exists_eq_or_imp, exists_eq_left]
  tauto

theorem checkPdfJavaScript_pdf {buffer : Buffer} {mimeType : String}
    (hpdf : normaliseMime mimeType = "application/pdf") :
    checkPdfJavaScript buffer mimeType = .error pdfJavaScript ↔
      HasScannedName (buffer.take PDF_JS_SCAN_BYTES) := by
  unfold checkPdfJavaScript
  rw [if_neg (not_not.mpr hpdf), ← scan_iff]
  dsimp only [throwIf]
  split
  · next h => exact ⟨fun _ => h, fun _ => rfl⟩
  · next h => exact ⟨fun he => absurd he (by simp), fun h' => absurd h' h⟩

/-- A PDF whose window holds a complete name of a script is rejected exactly if one of the names is
spelled as the scan knows it. -/
theorem script_names_rejected_iff (buffer : Buffer) (mimeType : String)
    (hpdf : normaliseMime mimeType = "application/pdf") :
    (HasScriptName (buffer.take PDF_JS_SCAN_BYTES) →
        checkPdfJavaScript buffer mimeType = .error pdfJavaScript) ↔
      (HasScriptName (buffer.take PDF_JS_SCAN_BYTES) →
        HasScannedName (buffer.take PDF_JS_SCAN_BYTES)) :=
  imp_congr_right fun _ => checkPdfJavaScript_pdf hpdf

/-- A script entry whose name ends in a horizontal tab. -/
def tabbedScript : Buffer := asciiBytes "%PDF-1.4 <</JS\t(alert(1))>>"

theorem tabbedScript_name : asciiBytes "/JS" ++ [0x09] <:+: tabbedScript :=
  ⟨asciiBytes "%PDF-1.4 <<", asciiBytes "(alert(1))>>", by simp [asciiBytes, tabbedScript]⟩

theorem tabbedScript_take : tabbedScript.take PDF_JS_SCAN_BYTES = tabbedScript := by
  apply List.take_of_length_le
  simp [tabbedScript, asciiBytes, PDF_JS_SCAN_BYTES]

/-- Declared in capitals and with a parameter, it is not rejected. -/
theorem tabbed_script_passes : normaliseMime "Application/PDF; version=1.4" = "application/pdf" ∧
    HasScriptName (tabbedScript.take PDF_JS_SCAN_BYTES) ∧
    checkPdfJavaScript tabbedScript "Application/PDF; version=1.4" ≠ .error pdfJavaScript := by
  refine ⟨by decide +kernel, ?_, ?_⟩
  · rw [tabbedScript_take]
    exact ⟨"/JS", by decide, 0x09, by decide, tabbedScript_name⟩
  · intro h
    have hok : checkPdfJavaScript tabbedScript "Application/PDF; version=1.4" = .ok () := by
      decide +kernel
    exact absurd (hok.symm.trans h) (by simp)

/-- The same entry with a space in place of the tab. -/
def spacedScript : Buffer := asciiBytes "%PDF-1.4 <</JS (alert(1))>>"

/-- It has a name of a script, and it is rejected. -/
theorem script_names_rejected_of_space : HasScriptName (spacedScript.take PDF_JS_SCAN_BYTES) ∧
    checkPdfJavaScript spacedScript "application/pdf" = .error pdfJavaScript := by
  have htake : spacedScript.take PDF_JS_SCAN_BYTES = spacedScript := by
    apply List.take_of_length_le
    simp [spacedScript, asciiBytes, PDF_JS_SCAN_BYTES]
  have hname : HasScriptName (spacedScript.take PDF_JS_SCAN_BYTES) := by
    rw [htake]
    exact ⟨"/JS", by decide, 0x20, by decide, asciiBytes "%PDF-1.4 <<", asciiBytes "(alert(1))>>",
      by simp [asciiBytes, spacedScript]⟩
  have hscanned : HasScannedName (spacedScript.take PDF_JS_SCAN_BYTES) := by
    rw [htake]
    exact (scan_iff _).mp (by decide +kernel)
  exact ⟨hname, (script_names_rejected_iff spacedScript "application/pdf" (by decide +kernel)).mpr
    (fun _ => hscanned) hname⟩

end WhisprMedia
