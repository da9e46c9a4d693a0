import OverloadSuite.Json.Reader

/-!
# The bytes of a text

The symbols of the UTF-8 bytes of a text are its characters, so a document is read from the bytes of
a file as it is from its text.
-/

namespace OverloadSuite

namespace Symbol

theorem toNat_ofNat {n : Nat} (h : n < 256) : (UInt8.ofNat n).toNat = n := by
  rw [UInt8.toNat_ofNat']
  omega

/-- A continuation byte gives the six bits that were put into it. -/
theorem continuation?_ofNat {n : Nat} (h : n < 64) :
    continuation? (UInt8.ofNat (n + 0x80)) = some n := by
  rw [continuation?, toNat_ofNat (by omega), if_pos (by omega), Nat.add_sub_cancel]

theorem scalar?_toNat {c : Char} {least : Nat} (h : least ≤ c.val.toNat) :
    scalar? least c.val.toNat = some c := by
  rw [scalar?, if_pos ⟨h, c.valid⟩]
  exact congrArg some (Char.ofNat_toNat c)

/-- The lead byte of a character finds the character and the bytes after it. -/
theorem character?_utf8EncodeChar (c : Char) (rest : List UInt8) : ∃ lead after,
    String.utf8EncodeChar c = lead :: after ∧
      character? lead (after ++ rest) = some (c, after.length) := by
  have hbound : c.val.toNat < 0x110000 := by
    rcases c.valid with h | h <;> omega
  fun_cases String.utf8EncodeChar c with
  | case1 n hn =>
    refine ⟨_, _, rfl, ?_⟩
    have hlead : (UInt8.ofNat n).toNat = n := toNat_ofNat (by omega)
    simp [character?, hlead, show n < 0x80 by omega]
    exact Char.ofNat_toNat c
  | case2 n hn hn' =>
    refine ⟨_, _, rfl, ?_⟩
    have hlead : (UInt8.ofNat (n / 64 % 0x20 + 0xc0)).toNat = n / 64 % 0x20 + 0xc0 :=
      toNat_ofNat (by omega)
    have hlast : continuation? (UInt8.ofNat (n % 0x40 + 0x80)) = some (n % 0x40) :=
      continuation?_ofNat (by omega)
    have hvalue : n / 64 % 0x20 * 64 + n % 0x40 = n := by omega
    have hscalar : scalar? 0x80 n = some c := scalar?_toNat (by omega)
    simp [-UInt8.ofNat_add, character?, hlead, hlast, hvalue, hscalar,
      show ¬ n / 64 % 0x20 + 0xc0 < 0x80 by omega, show n / 64 % 0x20 + 0xc0 < 0xe0 by omega]
  | case3 n hn hn' hn'' =>
    refine ⟨_, _, rfl, ?_⟩
    have hlead : (UInt8.ofNat (n / 4096 % 0x10 + 0xe0)).toNat = n / 4096 % 0x10 + 0xe0 :=
      toNat_ofNat (by omega)
    have hmiddle : continuation? (UInt8.ofNat (n / 64 % 0x40 + 0x80)) = some (n / 64 % 0x40) :=
      continuation?_ofNat (by omega)
    have hlast : continuation? (UInt8.ofNat (n % 0x40 + 0x80)) = some (n % 0x40) :=
      continuation?_ofNat (by omega)
    have hvalue : (n / 4096 % 0x10 * 64 + n / 64 % 0x40) * 64 + n % 0x40 = n := by omega
    have hscalar : scalar? 0x800 n = some c := scalar?_toNat (by omega)
    simp [-UInt8.ofNat_add, character?, hlead, hmiddle, hlast, hvalue, hscalar,
      show ¬ n / 4096 % 0x10 + 0xe0 < 0x80 by omega, show ¬ n / 4096 % 0x10 + 0xe0 < 0xc0 by omega,
      show ¬ n / 4096 % 0x10 + 0xe0 < 0xe0 by omega, show n / 4096 % 0x10 + 0xe0 < 0xf0 by omega]
  | case4 n hn hn' hn'' =>
    refine ⟨_, _, rfl, ?_⟩
    have hlead : (UInt8.ofNat (n / 262144 % 0x08 + 0xf0)).toNat = n / 262144 % 0x08 + 0xf0 :=
      toNat_ofNat (by omega)
    have hsecond : continuation? (UInt8.ofNat (n / 4096 % 0x40 + 0x80)) = some (n / 4096 % 0x40) :=
      continuation?_ofNat (by omega)
    have hthird : continuation? (UInt8.ofNat (n / 64 % 0x40 + 0x80)) = some (n / 64 % 0x40) :=
      continuation?_ofNat (by omega)
    have hlast : continuation? (UInt8.ofNat (n % 0x40 + 0x80)) = some (n % 0x40) :=
      continuation?_ofNat (by omega)
    have hvalue : ((n / 262144 % 0x08 * 64 + n / 4096 % 0x40) * 64 + n / 64 % 0x40) * 64 +
        n % 0x40 = n := by omega
    have hscalar : scalar? 0x10000 n = some c := scalar?_toNat (by omega)
    simp [-UInt8.ofNat_add, character?, hlead, hsecond, hthird, hlast, hvalue, hscalar,
      show ¬ n / 262144 % 0x08 + 0xf0 < 0x80 by omega,
      show ¬ n / 262144 % 0x08 + 0xf0 < 0xc0 by omega,
      show ¬ n / 262144 % 0x08 + 0xf0 < 0xe0 by omega,
      show ¬ n / 262144 % 0x08 + 0xf0 < 0xf0 by omega]

theorem ofBytesAfter_utf8Encode (cs : List Char) (done : List Symbol) :
    ofBytesAfter done (cs.flatMap String.utf8EncodeChar) = done.reverse ++ cs.map some := by
  induction cs generalizing done with
  | nil => simp [ofBytesAfter]
  | cons c cs ih =>
    obtain ⟨lead, after, hbytes, hcharacter⟩ :=
      character?_utf8EncodeChar c (cs.flatMap String.utf8EncodeChar)
    rw [List.flatMap_cons, hbytes, List.cons_append, ofBytesAfter, hcharacter]
    simp [ih]

/-- The symbols of the bytes of a text are its characters. -/
theorem ofBytes_toUTF8 (s : String) : ofBytes s.toUTF8 = s.toList.map some := by
  have hbytes : s.toUTF8.data.toList = s.toList.flatMap String.utf8EncodeChar := by
    show s.toByteArray.data.toList = _
    rw [← String.utf8Encode_toList, List.utf8Encode, List.toList_data_toByteArray]
  rw [ofBytes, hbytes, ofBytesAfter_utf8Encode]
  rfl

end Symbol

/-- **A value is read from the bytes of a text as it is from the text.** -/
theorem Json.parseBytes?_toUTF8 (s : String) : parseBytes? s.toUTF8 = parse? s := by
  rw [parseBytes?, Symbol.ofBytes_toUTF8, parse?]

end OverloadSuite
