import WhisprMedia.MagicBytes

/-! Which declared types a content can pass for: two types of the signature map admit a common
content exactly when a signature of one and a signature of the other ask for no byte twice with
different values. For images only the types signed at offset 4 overlap with short ones at 0. -/
namespace WhisprMedia

/-- The byte that an entry asks for at a position of the content. -/
def MagicEntry.byteAt (entry : MagicEntry) (p : Nat) : Option UInt8 :=
  if p < entry.offset then none else entry.bytes[p - entry.offset]?

/-- No position is asked for two different bytes. -/
def Compatible (sig sig' : MagicSignature) : Prop :=
  ∀ p < MAX_MAGIC_BYTES, ∀ entry ∈ sig, ∀ entry' ∈ sig', ∀ b ∈ entry.byteAt p,
    ∀ b' ∈ entry'.byteAt p, b = b'

instance (sig sig' : MagicSignature) : Decidable (Compatible sig sig') :=
  -- one look at each byte asked for, not one at each of the 256 bytes
  haveI (entry entry' : MagicEntry) (p : Nat) :
      Decidable (∀ b ∈ entry.byteAt p, ∀ b' ∈ entry'.byteAt p, b = b') :=
    @Option.decidableForallMem _ _ (fun _ => Option.decidableForallMem _) _
  inferInstanceAs (Decidable (∀ p < MAX_MAGIC_BYTES, ∀ entry ∈ sig, ∀ entry' ∈ sig',
    ∀ b ∈ entry.byteAt p, ∀ b' ∈ entry'.byteAt p, b = b'))

/-- What the map has for a type. -/
def signaturesOf (mime : String) : List MagicSignature := (MAGIC_MAP.lookup mime).getD []

/-- The content that has the bytes a signature asks for, and zero elsewhere. -/
def contentOf (sig : MagicSignature) : Buffer :=
  (List.range MAX_MAGIC_BYTES).map fun p => (sig.findSome? fun entry => entry.byteAt p).getD 0

/-- An entry that lies within the header. -/
def MagicEntry.Fits (entry : MagicEntry) : Prop :=
  entry.bytes ≠ [] ∧ entry.offset + entry.bytes.length ≤ MAX_MAGIC_BYTES

instance (entry : MagicEntry) : Decidable entry.Fits := by
  unfold MagicEntry.Fits
  infer_instance

section Entries
variable {header : Buffer} {entry : MagicEntry} {sig sig' : MagicSignature} {p : ℕ} {b : UInt8}

theorem byteAt_add {i : ℕ} : entry.byteAt (entry.offset + i) = entry.bytes[i]? := by
  unfold MagicEntry.byteAt
  rw [if_neg (by omega), Nat.add_sub_cancel_left]

theorem lt_of_byteAt (hfits : entry.Fits) (h : entry.byteAt p = some b) : p < MAX_MAGIC_BYTES := by
  unfold MagicEntry.byteAt at h
  split at h
  · exact absurd h (by simp)
  · have hlt : p - entry.offset < entry.bytes.length := (List.getElem?_eq_some_iff.mp h).1
    have := hfits.2
    omega

/-- An entry matches a header that has the bytes it asks for. -/
theorem matchesEntry_iff (hfits : entry.Fits) :
    matchesEntry header entry = true ↔ ∀ p b, entry.byteAt p = some b → header[p]? = some b := by
  unfold matchesEntry
  constructor
  · intro h p b hp
    split at h
    · exact absurd h (by simp)
    · unfold MagicEntry.byteAt at hp
      split at hp
      · exact absurd hp (by simp)
      · next hlen hoff =>
        have hmem : (b, p - entry.offset) ∈ entry.bytes.zipIdx :=
          List.mk_mem_zipIdx_iff_getElem?.mpr hp
        have hbyte := List.all_eq_true.mp h _ hmem
        rw [show entry.offset + (p - entry.offset) = p by omega] at hbyte
        simpa using hbyte
  · intro h
    -- the last byte asked for is there, so the header is long enough
    have hpos : 0 < entry.bytes.length := List.length_pos_iff.mpr hfits.1
    have hlast := h (entry.offset + (entry.bytes.length - 1)) _
      (byteAt_add.trans (List.getElem?_eq_getElem (by omega)))
    have hlen := (List.getElem?_eq_some_iff.mp hlast).1
    rw [if_neg (by omega), List.all_eq_true]
    intro x hx
    have hi : entry.bytes[x.2]? = some x.1 := List.mem_zipIdx_iff_getElem?.mp hx
    simpa using h (entry.offset + x.2) x.1 (byteAt_add.trans hi)

/-- Two signatures that one header matches ask for the same bytes. -/
theorem compatible_of_matches (hfits : ∀ entry ∈ sig, entry.Fits)
    (hfits' : ∀ entry ∈ sig', entry.Fits)
    (h : ∀ entry ∈ sig, matchesEntry header entry = true)
    (h' : ∀ entry ∈ sig', matchesEntry header entry = true) : Compatible sig sig' := by
  intro p _ entry hentry entry' hentry' b hb b' hb'
  have hp := (matchesEntry_iff (hfits entry hentry)).mp (h entry hentry) p b hb
  have hp' := (matchesEntry_iff (hfits' entry' hentry')).mp (h' entry' hentry') p b' hb'
  exact Option.some.inj (hp.symm.trans hp')

/-- Every entry of a signature without a conflict matches the content made for it. -/
theorem matches_contentOf (hfits : ∀ entry ∈ sig, entry.Fits) (hsig : Compatible sig sig) :
    ∀ entry ∈ sig, matchesEntry (contentOf sig) entry = true := by
  intro entry hentry
  rw [matchesEntry_iff (hfits entry hentry)]
  intro p b hb
  have hp := lt_of_byteAt (hfits entry hentry) hb
  have hfound : sig.findSome? (fun entry => entry.byteAt p) = some b := by
    have hsome : (sig.findSome? fun entry => entry.byteAt p).isSome = true := by
      rw [List.isSome_findSome?, List.any_eq_true]
      exact ⟨entry, hentry, by rw [hb]; rfl⟩
    obtain ⟨b', hb'⟩ := Option.isSome_iff_exists.mp hsome
    obtain ⟨entry', hentry', hat⟩ := List.exists_of_findSome?_eq_some hb'
    rw [hb', hsig p hp entry' hentry' entry hentry b' hat b hb]
  unfold contentOf
  rw [List.getElem?_map, List.getElem?_range hp, Option.map_some, hfound, Option.getD_some]

theorem compatible_append (hsig : Compatible sig sig) (hsig' : Compatible sig' sig')
    (h : Compatible sig sig') : Compatible (sig ++ sig') (sig ++ sig') := by
  intro p hp entry hentry entry' hentry' b hb b' hb'
  rcases List.mem_append.mp hentry with hl | hr
  · rcases List.mem_append.mp hentry' with hl' | hr'
    · exact hsig p hp entry hl entry' hl' b hb b' hb'
    · exact h p hp entry hl entry' hr' b hb b' hb'
  · rcases List.mem_append.mp hentry' with hl' | hr'
    · exact (h p hp entry' hl' entry hr b' hb' b hb).symm
    · exact hsig' p hp entry hr entry' hr' b hb b' hb'

end Entries

/-! Types -/

/-- A type of the map, as the map spells it. -/
def KnownType (mime : String) : Prop :=
  normaliseMime mime = mime ∧ (MAGIC_MAP.lookup mime).isSome = true

instance (mime : String) : Decidable (KnownType mime) := by
  unfold KnownType
  infer_instance

/-- No signature of the map asks for two bytes at one position, or for one behind the header. -/
theorem signatures_wellFormed : ∀ entry ∈ MAGIC_MAP, ∀ sig ∈ entry.2,
    (∀ e ∈ sig, e.Fits) ∧ Compatible sig sig := by
  decide +kernel

theorem wellFormed_of_mem {mime : String} {sig : MagicSignature} (h : sig ∈ signaturesOf mime) :
    (∀ e ∈ sig, e.Fits) ∧ Compatible sig sig := by
  unfold signaturesOf at h
  cases hl : MAGIC_MAP.lookup mime with
  | none =>
    rw [hl] at h
    exact absurd h (by simp)
  | some signatures =>
    rw [hl] at h
    obtain ⟨l₁, l₂, hmap, -⟩ := List.lookup_eq_some_iff.mp hl
    exact signatures_wellFormed (mime, signatures) (by rw [hmap]; simp) sig h

theorem validate_known_iff {mime : String} {buffer : Buffer} (hm : KnownType mime) :
    validateMagicBytes buffer mime = .ok () ↔
      ∃ sig ∈ signaturesOf mime, ∀ entry ∈ sig,
        matchesEntry (buffer.take MAX_MAGIC_BYTES) entry = true := by
  obtain ⟨hn, hknown⟩ := hm
  obtain ⟨signatures, hs⟩ := Option.isSome_iff_exists.mp hknown
  have hsig : signaturesOf mime = signatures := by rw [signaturesOf, hs, Option.getD_some]
  rw [hsig]
  unfold validateMagicBytes
  dsimp only
  rw [hn, hs]
  dsimp only
  constructor
  · intro h
    split at h
    · next hany => simpa using hany
    · exact absurd h (by simp)
  · intro h
    rw [if_pos (by simpa using h)]

/-- Some content passes for both types exactly if a signature of one is compatible with a
signature of the other. -/
theorem passes_for_both_iff {mime mime' : String} (hm : KnownType mime) (hm' : KnownType mime') :
    (∃ buffer, validateMagicBytes buffer mime = .ok () ∧
        validateMagicBytes buffer mime' = .ok ()) ↔
      ∃ sig ∈ signaturesOf mime, ∃ sig' ∈ signaturesOf mime', Compatible sig sig' := by
  constructor
  · rintro ⟨buffer, h, h'⟩
    obtain ⟨sig, hsig, hentries⟩ := (validate_known_iff hm).mp h
    obtain ⟨sig', hsig', hentries'⟩ := (validate_known_iff hm').mp h'
    exact ⟨sig, hsig, sig', hsig', compatible_of_matches (wellFormed_of_mem hsig).1
      (wellFormed_of_mem hsig').1 hentries hentries'⟩
  · rintro ⟨sig, hsig, sig', hsig', hc⟩
    obtain ⟨hfits, hself⟩ := wellFormed_of_mem hsig
    obtain ⟨hfits', hself'⟩ := wellFormed_of_mem hsig'
    have hall := @matches_contentOf (sig ++ sig')
      (fun e he => (List.mem_append.mp he).elim (hfits e) (hfits' e))
      (compatible_append hself hself' hc)
    have htake : (contentOf (sig ++ sig')).take MAX_MAGIC_BYTES = contentOf (sig ++ sig') := by
      apply List.take_of_length_le
      simp [contentOf]
    refine ⟨contentOf (sig ++ sig'), (validate_known_iff hm).mpr ⟨sig, hsig, ?_⟩,
      (validate_known_iff hm').mpr ⟨sig', hsig', ?_⟩⟩
    · intro e he
      rw [htake]
      exact hall e (List.mem_append_left _ he)
    · intro e he
      rw [htake]
      exact hall e (List.mem_append_right _ he)

/-! Images -/

/-- Types signed within the first four bytes. -/
def SHORT_SIGNATURES : List String := ["image/jpeg", "image/gif"]

/-- Types signed by the `ftyp` box at offset 4. -/
def FTYP_SIGNATURES : List String := ["image/heic", "image/heif"]

/-- One type is signed before the `ftyp` box that signs the other. -/
def SignedApart (mime mime' : String) : Prop :=
  (mime ∈ SHORT_SIGNATURES ∧ mime' ∈ FTYP_SIGNATURES) ∨
    (mime ∈ FTYP_SIGNATURES ∧ mime' ∈ SHORT_SIGNATURES)

instance (mime mime' : String) : Decidable (SignedApart mime mime') := by
  unfold SignedApart
  infer_instance

theorem imageTypes_known : ∀ mime ∈ THUMBNAIL_ALLOWED_MIME, KnownType mime := by decide +kernel

theorem imageTypes_compatible : ∀ mime ∈ THUMBNAIL_ALLOWED_MIME, ∀ mime' ∈ THUMBNAIL_ALLOWED_MIME,
    mime ≠ mime' → ((∃ sig ∈ signaturesOf mime, ∃ sig' ∈ signaturesOf mime', Compatible sig sig') ↔
      SignedApart mime mime') := by
  decide +kernel

/-- Two different image types admit a common content only if one is JPEG or GIF and the other
HEIC or HEIF. -/
theorem image_types_overlap_iff {mime mime' : String} (hm : mime ∈ THUMBNAIL_ALLOWED_MIME)
    (hm' : mime' ∈ THUMBNAIL_ALLOWED_MIME) (hne : mime ≠ mime') :
    (∃ buffer, validateMagicBytes buffer mime = .ok () ∧
        validateMagicBytes buffer mime' = .ok ()) ↔ SignedApart mime mime' :=
  (passes_for_both_iff (imageTypes_known mime hm) (imageTypes_known mime' hm')).trans
    (imageTypes_compatible mime hm mime' hm' hne)

theorem image_types_overlap_png_webp : ¬ ∃ buffer,
    validateMagicBytes buffer "image/png" = .ok () ∧
      validateMagicBytes buffer "image/webp" = .ok () := by
  rw [image_types_overlap_iff (by decide) (by decide) (by decide)]
  decide

/-- A JPEG header in front of an `ftyp` box of brand `heic`. -/
def polyglot : Buffer :=
  [0xff, 0xd8, 0xff, 0xe0, 0x66, 0x74, 0x79, 0x70, 0x68, 0x65, 0x69, 0x63]

theorem polyglot_passes_for_both : validateMagicBytes polyglot "image/jpeg" = .ok () ∧
    validateMagicBytes polyglot "image/heic" = .ok () := by
  decide +kernel

end WhisprMedia
