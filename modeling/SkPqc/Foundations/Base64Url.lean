import SkPqc.Foundations.Base64

/-!
# URL-safe Base64 without padding

The URL-safe alphabet replaces the symbols `+` and `/` of the standard one, and
the pads at the end of a text are left out: the length says how many there were.

Main results:

- Theorem `encodeBytes_eq_append_pads`: the pads of the standard encoding can
  be restored.
- Theorem `urlSafeNoPad_exact`: the engine accepts canonical encodings only.
-/

namespace Base64

open Rust

/-- A standard symbol in the URL-safe alphabet. -/
def toUrlSafe (c : UInt8) : UInt8 := if c = 43 then 45 else if c = 47 then 95 else c

/-- A URL-safe symbol in the standard alphabet. -/
def ofUrlSafe (c : UInt8) : Option UInt8 :=
  if c = 45 then some 43
  else if c = 95 then some 47
  else if c = 43 ∨ c = 47 ∨ c = pad then none else some c

/-- The standard encoding without its pads. -/
def unpadded (bs : Bytes) : Bytes := (encodeBytes bs).filter (· ≠ pad)

/-- The pads that a text of this length has lost. -/
def pads (len : Nat) : Bytes := List.replicate ((4 - len % 4) % 4) pad

/-- The engine of URL-safe Base64 without padding. -/
def urlSafeNoPad : Engine where
  encode bs := String.ofList ((unpadded bs).map fun b => Char.ofNat (toUrlSafe b).toNat)
  decode text :=
    match text.mapM ofUrlSafe with
    | none => .error "Invalid symbol"
    | some symbols => standard.decode (symbols ++ pads symbols.length)

/-! ## The alphabet -/

theorem toUrlSafe_of_ofUrlSafe {c d : UInt8} (h : ofUrlSafe c = some d) :
    toUrlSafe d = c ∧ d ≠ pad := by
  unfold ofUrlSafe at h
  split at h
  · cases h
    subst c
    decide
  · split at h
    · cases h
      subst c
      decide
    · split at h
      · cases h
      · rename_i hother
        cases h
        push Not at hother
        exact ⟨by rw [toUrlSafe, if_neg hother.1, if_neg hother.2.1], hother.2.2⟩

/-- The symbols of the standard alphabet, which exclude `-`, `_` and the pad. -/
def IsSymbol (d : UInt8) : Prop := ∃ v < 64, d = symbol v

theorem ofUrlSafe_toUrlSafe {d : UInt8} (h : IsSymbol d) : ofUrlSafe (toUrlSafe d) = some d := by
  have hall : ∀ v < 64, ofUrlSafe (toUrlSafe (symbol v)) = some (symbol v) := by decide
  obtain ⟨v, hv, rfl⟩ := h
  exact hall v hv

theorem toUrlSafe_lt {d : UInt8} (h : IsSymbol d) : (toUrlSafe d).toNat < 128 := by
  have hall : ∀ v < 64, (toUrlSafe (symbol v)).toNat < 128 := by decide
  obtain ⟨v, hv, rfl⟩ := h
  exact hall v hv

theorem mapM_ofUrlSafe_eq_some {text symbols : Bytes} (h : text.mapM ofUrlSafe = some symbols) :
    symbols.map toUrlSafe = text ∧ pad ∉ symbols := by
  induction text generalizing symbols with
  | nil =>
      cases h
      exact ⟨rfl, List.not_mem_nil⟩
  | cons c text ih =>
      simp only [List.mapM_cons, Option.bind_eq_bind, Option.bind_eq_some_iff] at h
      obtain ⟨d, hd, rest, hrest, h⟩ := h
      cases h
      have hsymbol := toUrlSafe_of_ofUrlSafe hd
      have htail := ih hrest
      constructor
      · rw [List.map_cons, hsymbol.1, htail.1]
      · rw [List.mem_cons, not_or]
        exact ⟨hsymbol.2.symm, htail.2⟩

theorem mapM_ofUrlSafe_map {symbols : Bytes} (h : ∀ d ∈ symbols, IsSymbol d) :
    (symbols.map toUrlSafe).mapM ofUrlSafe = some symbols := by
  induction symbols with
  | nil => rfl
  | cons d symbols ih =>
      have hhead := ofUrlSafe_toUrlSafe (h d List.mem_cons_self)
      have htail := ih fun e he => h e (List.mem_cons_of_mem d he)
      rw [List.map_cons, List.mapM_cons, hhead, htail]
      rfl

/-! ## The pads -/

theorem isSymbol {v : Nat} (h : v < 64) : IsSymbol (symbol v) := ⟨v, h, rfl⟩

theorem IsSymbol.ne_pad {d : UInt8} (h : IsSymbol d) : d ≠ pad := by
  obtain ⟨v, hv, rfl⟩ := h
  exact symbol_ne_pad hv

/-- Dropping the pads keeps a whole group of symbols. -/
theorem filter_group {w x y z : UInt8} (hw : IsSymbol w) (hx : IsSymbol x) (hy : IsSymbol y)
    (hz : IsSymbol z) (tail : Bytes) :
    List.filter (· ≠ pad) (w :: x :: y :: z :: tail) =
      w :: x :: y :: z :: tail.filter (· ≠ pad) := by
  simp [hw.ne_pad, hx.ne_pad, hy.ne_pad, hz.ne_pad]

/-- Whole groups ask for no pads. -/
theorem pads_add_four (n : Nat) : pads (n + 4) = pads n := by
  unfold pads
  congr 2
  omega

/-- A standard encoding is its symbols, followed by the pads they ask for. -/
theorem encodeBytes_eq_append_pads (bs : Bytes) :
    (∀ d ∈ unpadded bs, IsSymbol d) ∧
      encodeBytes bs = unpadded bs ++ pads (unpadded bs).length := by
  unfold unpadded
  fun_induction encodeBytes bs with
  | case1 => exact ⟨fun d hd => absurd hd List.not_mem_nil, rfl⟩
  | case2 a =>
      have ha : a.toNat < 256 := a.toNat_lt
      have hw := isSymbol (show a.toNat / 4 < 64 by omega)
      have hx := isSymbol (show a.toNat % 4 * 16 < 64 by omega)
      simp [hw, hx, hw.ne_pad, hx.ne_pad, pads]
  | case3 a b =>
      have ha : a.toNat < 256 := a.toNat_lt
      have hb : b.toNat < 256 := b.toNat_lt
      have hw := isSymbol (show a.toNat / 4 < 64 by omega)
      have hx := isSymbol (show a.toNat % 4 * 16 + b.toNat / 16 < 64 by omega)
      have hy := isSymbol (show b.toNat % 16 * 4 < 64 by omega)
      simp [hw, hx, hy, hw.ne_pad, hx.ne_pad, hy.ne_pad, pads]
  | case4 a b c rest ih =>
      have ha : a.toNat < 256 := a.toNat_lt
      have hb : b.toNat < 256 := b.toNat_lt
      have hc : c.toNat < 256 := c.toNat_lt
      have hw := isSymbol (show a.toNat / 4 < 64 by omega)
      have hx := isSymbol (show a.toNat % 4 * 16 + b.toNat / 16 < 64 by omega)
      have hy := isSymbol (show b.toNat % 16 * 4 + c.toNat / 64 < 64 by omega)
      have hz := isSymbol (show c.toNat % 64 < 64 by omega)
      rw [filter_group hw hx hy hz]
      constructor
      · simp only [List.mem_cons, forall_eq_or_imp]
        exact ⟨hw, hx, hy, hz, ih.1⟩
      · simp only [List.length_cons, List.cons_append]
        rw [pads_add_four, ← ih.2]

/-! ## The engine -/

theorem utf8_urlSafeNoPad_encode (bs : Bytes) :
    utf8 (urlSafeNoPad.encode bs) = (unpadded bs).map toUrlSafe := by
  have hlt : ∀ b ∈ (unpadded bs).map toUrlSafe, b.toNat < 128 := by
    intro b hb
    obtain ⟨d, hd, rfl⟩ := List.mem_map.mp hb
    exact toUrlSafe_lt ((encodeBytes_eq_append_pads bs).1 d hd)
  have htext := utf8_ofList_map hlt
  rw [List.map_map] at htext
  exact htext

theorem urlSafeNoPad_exact : urlSafeNoPad.Exact where
  decode_eq_ok_iff text bs := by
    rw [utf8_urlSafeNoPad_encode]
    have hpadded := encodeBytes_eq_append_pads bs
    constructor
    · intro h
      simp only [urlSafeNoPad] at h
      split at h
      · cases h
      · rename_i symbols hsymbols
        have hback := mapM_ofUrlSafe_eq_some hsymbols
        have henc := (standard_exact.decode_eq_ok_iff _ _).mp h
        rw [utf8_standard_encode] at henc
        have hkeep : unpadded bs = symbols := by
          rw [unpadded, ← henc, List.filter_append]
          have hsame : symbols.filter (· ≠ pad) = symbols := by
            apply List.filter_eq_self.mpr
            intro d hd
            simpa using ne_of_mem_of_not_mem hd hback.2
          have hnone : (pads symbols.length).filter (· ≠ pad) = [] := by
            simp [pads]
          rw [hsame, hnone, List.append_nil]
        rw [hkeep, hback.1]
    · rintro rfl
      simp only [urlSafeNoPad, mapM_ofUrlSafe_map hpadded.1]
      apply (standard_exact.decode_eq_ok_iff _ _).mpr
      rw [utf8_standard_encode, ← hpadded.2]

end Base64
