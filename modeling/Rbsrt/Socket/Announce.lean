import Rbsrt.Socket.StreamIDOption
import Rbsrt.StreamID.RoundTrip

/-!
# A streamid on its way to the server

A client compiles a components object, stores the result with `streamid=` and connects. The server
gets a connection whose `streamid` is what libsrt has carried over, and parses it. In between are a
setter that counts characters, an option that is stored with a NUL behind it, a transport that takes
it for a C string, and a getter that returns bytes without an encoding.

For an object in ASCII these make up for each other, except in two cases: the setter refuses 512
characters, and a NUL inside the streamid cuts it off. In the second case nothing raises, and what
the server parses is another object.

## Main results

* `bytes_encode`, `binary_bytes_encode` — ASCII is the same in both encodings
* `StreamIDComponents.Free.parse` — parsing makes up no characters
* `StreamIDComponents.arrives_iff` — which objects arrive
-/

namespace Rbsrt

open Backtrack

/-! ### Encodings -/

theorem utf8EncodeChar_ne_nil (c : Char) : String.utf8EncodeChar c ≠ [] := by
  intro hnil
  have hlength := String.length_utf8EncodeChar c
  rw [hnil] at hlength
  exact absurd hlength.symm (Nat.ne_of_gt (Char.utf8Size_pos c))

/-- A String in UTF-8. -/
def encode (s : RString) : EncodedString where
  chars := s.map String.utf8EncodeChar
  ne_nil := fun b hb => by
    obtain ⟨c, -, rfl⟩ := List.mem_map.mp hb
    exact utf8EncodeChar_ne_nil c

/-- A String without an encoding, whose characters are its bytes. -/
def binary (bytes : Bytes) : RString := bytes.map fun b => Char.ofNat b.toNat

/-- All characters are ASCII. -/
def Ascii (s : RString) : Prop := ∀ c ∈ s, c.toNat < 128

instance (s : RString) : Decidable (Ascii s) :=
  decidable_of_iff (s.all fun c => c.toNat < 128) (by simp [Ascii])

variable {s : RString}

theorem Ascii.mono {t : RString} (h : Ascii s) (ht : ∀ c ∈ t, c ∈ s) : Ascii t :=
  fun c hc => h c (ht c hc)

theorem strlen_encode (s : RString) : (encode s).strlen = s.length := List.length_map _

theorem utf8EncodeChar_of_lt {c : Char} (h : c.toNat < 128) :
    String.utf8EncodeChar c = [c.toUInt8] := by
  refine String.utf8EncodeChar_eq_singleton (Char.utf8Size_eq_one_iff.mpr ?_)
  rw [UInt32.le_iff_toNat_le]
  exact Nat.le_of_lt_succ h

/-- **ASCII has a byte for each character.** -/
theorem bytes_encode (h : Ascii s) : (encode s).bytes = s.map Char.toUInt8 := by
  show (s.map String.utf8EncodeChar).flatten = _
  induction s with
  | nil => rfl
  | cons c s ih =>
    have hc := utf8EncodeChar_of_lt (h c List.mem_cons_self)
    rw [List.map_cons, List.flatten_cons, hc, ih (h.mono fun d hd => List.mem_cons_of_mem c hd)]
    rfl

theorem toNat_toUInt8 {c : Char} (h : c.toNat < 128) : c.toUInt8.toNat = c.toNat := by
  show c.val.toUInt8.toNat = c.toNat
  rw [UInt32.toNat_toUInt8]
  exact Nat.mod_eq_of_lt (show c.toNat < 256 by omega)

/-- **And is the same without an encoding.** -/
theorem binary_bytes_encode (h : Ascii s) : binary (encode s).bytes = s := by
  rw [bytes_encode h, binary, List.map_map]
  refine (List.map_congr_left fun c hc => ?_).trans (List.map_id s)
  show Char.ofNat c.toUInt8.toNat = c
  rw [toNat_toUInt8 (h c hc), Char.ofNat_toNat]

/-- The NUL of a C string is the NUL of the String. -/
theorem toUInt8_eq_zero_iff {c : Char} (h : c.toNat < 128) : c.toUInt8 = 0 ↔ c = '\x00' := by
  constructor
  · intro hzero
    have htoNat := toNat_toUInt8 h
    rw [hzero] at htoNat
    rw [← Char.ofNat_toNat c, ← htoNat]
    rfl
  · rintro rfl
    rfl

/-- The part of a String before its first NUL. -/
def beforeNul (s : RString) : RString := s.takeWhile (· ≠ '\x00')

/-- **A C string in ASCII**: what comes before the first NUL, which may be the terminator. -/
theorem text_bytes_encode (h : Ascii s) :
    CString.text ((encode s).bytes ++ [0]) = (encode (beforeNul s)).bytes := by
  have hbefore : Ascii (beforeNul s) := h.mono fun c hc => (List.takeWhile_sublist _).subset hc
  rw [bytes_encode h, bytes_encode hbefore]
  induction s with
  | nil => rfl
  | cons c s ih =>
    have hrest : Ascii s := h.mono fun d hd => List.mem_cons_of_mem c hd
    have hzero := toUInt8_eq_zero_iff (h c List.mem_cons_self)
    rw [List.map_cons, List.cons_append, CString.text_cons, beforeNul]
    by_cases hc : c = '\x00'
    · rw [if_pos (hzero.mpr hc), List.takeWhile_cons_of_neg (by simpa using hc)]
      rfl
    · rw [if_neg (mt hzero.mp hc), List.takeWhile_cons_of_pos (by simpa using hc), List.map_cons]
      exact congrArg _ (ih hrest (hrest.mono fun d hd => (List.takeWhile_sublist _).subset hd))

theorem beforeNul_eq_self (h : '\x00' ∉ s) : beforeNul s = s := by
  refine List.takeWhile_eq_self_iff.mpr fun c hc => ?_
  have hne : c ≠ '\x00' := fun heq => h (heq ▸ hc)
  simpa using hne

theorem nul_not_mem_beforeNul (s : RString) : '\x00' ∉ beforeNul s := by
  intro hmem
  simpa using List.mem_takeWhile_imp hmem

namespace StreamIDComponents

/-! ### Characters that are not there -/

/-- No text of the object has the character. -/
structure Free (ch : Char) (c : StreamIDComponents) : Prop where
  resourceName : ch ∉ c.resourceName.toS
  userName : ch ∉ c.userName.toS
  mode : ch ∉ c.mode.toS
  hostName : ch ∉ c.hostName.toS
  type : ch ∉ c.type.toS
  sessionid : ch ∉ c.sessionid.toS
  extra : ∀ e ∈ c.extra.entries, ch ∉ e.1.toS ∧ ch ∉ e.2.toS

variable {c : StreamIDComponents} {ch : Char}

theorem nul_free_fresh : Free '\x00' fresh where
  resourceName := by decide
  userName := by decide
  mode := by decide
  hostName := by decide
  type := by decide
  sessionid := by decide
  extra := fun e he => absurd he List.not_mem_nil

theorem Free.splitHost (h : Free ch c) {v : RString} (hv : ch ∉ v) : Free ch (c.splitHost v) := by
  rcases exists_cut v '/' with hslash | ⟨a, b, rfl, ha⟩
  · rw [splitHost_of_not_mem hslash]
    exact { h with hostName := hv }
  · rw [splitHost_append ha]
    simp only [List.mem_append, not_or] at hv
    refine { h with resourceName := ?_, hostName := ?_ }
    · show ch ∉ (if c.resourceName.truthy then c.resourceName else .str b).toS
      split
      · exact h.resourceName
      · exact fun hmem => hv.2 (List.mem_cons_of_mem _ hmem)
    · show ch ∉ if a = [] then '/' :: b else a
      split
      · exact hv.2
      · exact hv.1

/-- Setting texts without the character. -/
theorem Free.setStr (h : Free ch c) {p : RString × RString} (hkey : ch ∉ p.1) (hval : ch ∉ p.2) :
    Free ch (c.setStr p) := by
  rw [StreamIDComponents.setStr]
  rcases Field.ofName p.1 with _ | f
  · refine { h with extra := fun e he => ?_ }
    rcases OrderedHash.mem_entries_aset he with rfl | he
    · exact ⟨hkey, hval⟩
    · exact h.extra e he.1
  · cases f with
    | resourceName => exact { h with resourceName := hval }
    | userName => exact { h with userName := hval }
    | mode =>
      by_cases hm : p.2 ∈ modes
      · simp only [if_pos hm]
        exact { h with mode := hval }
      · simpa only [if_neg hm] using h
    | hostName => exact h.splitHost hval
    | type =>
      by_cases ht : p.2 ∈ types
      · simp only [if_pos ht]
        exact { h with type := hval }
      · simpa only [if_neg ht] using h
    | sessionid => exact { h with sessionid := hval }

theorem Free.foldl (h : Free ch c) {ps : List (RString × RString)}
    (hps : ∀ p ∈ ps, ch ∉ p.1 ∧ ch ∉ p.2) : Free ch (ps.foldl StreamIDComponents.setStr c) := by
  induction ps generalizing c with
  | nil => exact h
  | cons p ps ih =>
    obtain ⟨⟨hkey, hval⟩, hps⟩ := List.forall_mem_cons.mp hps
    exact ih (h.setStr hkey hval) hps

/-- What is scanned is part of the string. -/
theorem not_mem_of_mem_scan {s : RString} (hs : ch ∉ s) {p : RString × RString}
    (hp : p ∈ scan pairRegexp s) : ch ∉ p.1 ∧ ch ∉ p.2 := by
  obtain ⟨t, r, hsuffix, hfirst⟩ := exists_suffix_of_mem_scan hp
  obtain ⟨w, rfl, -⟩ := first_pairRegexp_iff.mp hfirst
  have ht : ch ∉ p.1 ++ '=' :: (p.2 ++ w) := fun hmem => hs (hsuffix.subset hmem)
  simp only [List.mem_append, List.mem_cons, not_or] at ht
  exact ⟨ht.1, ht.2.2.1⟩

/-- **Parsing makes up no characters.** -/
theorem nul_free_parse {lib : URILib} {s : RString} (hs : header <+: s) (hnul : '\x00' ∉ s)
    (hparse : parse lib s = .ok c) : Free '\x00' c := by
  rw [parse_of_header lib hs] at hparse
  obtain rfl := Except.ok.inj hparse
  exact nul_free_fresh.foldl fun p hp => not_mem_of_mem_scan hnul hp

/-! ### And compiling makes up none -/

theorem mem_join {ps : List (RString × RString)} (h : ch ∈ join ps) :
    ch = ',' ∨ ∃ p ∈ ps, ch ∈ printPair p := by
  induction ps with
  | nil => exact absurd h List.not_mem_nil
  | cons p ps ih =>
    cases ps with
    | nil =>
      rw [join_singleton] at h
      exact Or.inr ⟨p, List.mem_cons_self, h⟩
    | cons q ps =>
      rw [join_cons_cons, List.mem_append, List.mem_cons] at h
      rcases h with h | rfl | h
      · exact Or.inr ⟨p, List.mem_cons_self, h⟩
      · exact Or.inl rfl
      · exact (ih h).imp_right fun ⟨r, hr, hmem⟩ => ⟨r, List.mem_cons_of_mem p hr, hmem⟩

theorem Free.toS (h : Free '\x00' c) : '\x00' ∉ c.toS := by
  have hemit : ∀ (name : RString) (v : Value), '\x00' ∉ name → '\x00' ∉ v.toS →
      ∀ p ∈ emit name v, '\x00' ∉ p.1 ∧ '\x00' ∉ p.2 := by
    intro name v hname hv p hp
    obtain ⟨-, rfl⟩ := mem_emit.mp hp
    exact ⟨hname, hv⟩
  have hpairs : ∀ p ∈ c.pairs, '\x00' ∉ p.1 ∧ '\x00' ∉ p.2 := by
    intro p hp
    simp only [StreamIDComponents.pairs, List.mem_append, List.mem_map] at hp
    rcases hp with (((((hp | hp) | hp) | hp) | hp) | hp) | ⟨e, he, rfl⟩
    · exact hemit _ _ (by decide) h.resourceName p hp
    · exact hemit _ _ (by decide) h.userName p hp
    · exact hemit _ _ (by decide) h.mode p hp
    · exact hemit _ _ (by decide) h.hostName p hp
    · exact hemit _ _ (by decide) h.type p hp
    · exact hemit _ _ (by decide) h.sessionid p hp
    · exact h.extra e he
  rw [toS_eq, List.mem_append]
  rintro (hmem | hmem)
  · exact absurd hmem (by decide)
  · rcases mem_join hmem with hcomma | ⟨p, hp, hmem⟩
    · exact absurd hcomma (by decide)
    · rw [printPair, List.mem_append, List.mem_cons] at hmem
      rcases hmem with hmem | heq | hmem
      · exact (hpairs p hp).1 hmem
      · exact absurd heq (by decide)
      · exact (hpairs p hp).2 hmem

theorem header_beforeNul_toS (c : StreamIDComponents) : header <+: beforeNul c.toS := by
  have hheader : ∀ ch ∈ header, decide (ch ≠ '\x00') = true := List.all_eq_true.mp (by decide)
  rw [toS_eq, beforeNul, List.takeWhile_append_of_pos hheader]
  exact List.prefix_append header _

end StreamIDComponents

/-! ### From one end to the other -/

/-- What is documented of libsrt: the id a client has stored arrives at the accepted socket as a C
string. -/
def CarriesCString (carry : Bytes → Bytes) : Prop := ∀ stored, carry stored = CString.text stored

/-- What the getter returns, as the argument of `StreamIDComponents.new`. -/
def streamidValue : Option Bytes → Value
  | none => .nil
  | some bytes => .str (binary bytes)

namespace StreamIDComponents

variable {c : StreamIDComponents}

/-- The client stores the compiled object, and the server makes the same object of what it is
given. -/
structure Arrives (lib : URILib) (carry : Bytes → Bytes) (client server : Receiver)
    (behind : ℕ → UInt8) (stored : Bytes) (c : StreamIDComponents) : Prop where
  sets : (setStreamid client behind stored (.string (encode c.toS))).2 = .ok true
  parses : ∃ v, getStreamid server
      (carry (setStreamid client behind stored (.string (encode c.toS))).1) = .ok v ∧
    new lib (.value (streamidValue v)) = .ok c

/-- What the server is given, when the client has stored the object. -/
theorem getStreamid_carried {carry : Bytes → Bytes} {client server : Receiver}
    (hcarry : CarriesCString carry) (hclient : client.state ≠ .nonexist)
    (hserver : server.state ≠ .nonexist) (behind : ℕ → UInt8) (stored : Bytes)
    (hascii : Ascii c.toS) (hlength : c.toS.length < 512) :
    getStreamid server (carry (setStreamid client behind stored (.string (encode c.toS))).1) =
      .ok (some (encode (beforeNul c.toS)).bytes) := by
  have hset := setStreamid_of_lt hclient behind stored (s := encode c.toS)
    (by rwa [strlen_encode])
  have htake : ((encode c.toS).bytes ++ [0]).take ((encode c.toS).strlen + 1) =
      (encode c.toS).bytes ++ [0] := by
    refine List.take_of_length_le ?_
    rw [strlen_encode, bytes_encode hascii, List.length_append, List.length_map,
      List.length_singleton]
  have hne : (encode (beforeNul c.toS)).bytes ≠ [] := by
    intro hnil
    have hlength := (encode (beforeNul c.toS)).strlen_le
    rw [hnil, strlen_encode] at hlength
    have hheader := (header_beforeNul_toS c).length_le
    exact absurd (Nat.le_trans hheader hlength) (by decide)
  rw [hset, htake, hcarry, text_bytes_encode hascii, getStreamid_of_ne hserver, if_neg hne]

/-- **Which objects arrive.** Of the ASCII objects that can be expressed as a streamid at all, those
of less than 512 characters that have no NUL in them. -/
theorem arrives_iff {lib : URILib} {carry : Bytes → Bytes} {client server : Receiver}
    (hcarry : CarriesCString carry) (hclient : client.state ≠ .nonexist)
    (hserver : server.state ≠ .nonexist) (behind : ℕ → UInt8) (stored : Bytes)
    (hc : WellFormed c) (hascii : Ascii c.toS) :
    Arrives lib carry client server behind stored c ↔ c.toS.length < 512 ∧ '\x00' ∉ c.toS := by
  have hbefore : Ascii (beforeNul c.toS) :=
    hascii.mono fun d hd => (List.takeWhile_sublist _).subset hd
  have hgiven := getStreamid_carried hcarry hclient hserver behind stored hascii
  have hvalue : streamidValue (some (encode (beforeNul c.toS)).bytes) = .str (beforeNul c.toS) :=
    congrArg Value.str (binary_bytes_encode hbefore)
  constructor
  · rintro ⟨hsets, v, hget, hnew⟩
    have hlength : c.toS.length < 512 := by
      by_contra hlong
      obtain ⟨e, he⟩ := setStreamid_of_ge client behind stored (s := encode c.toS)
        (by rw [strlen_encode]; omega)
      rw [he] at hsets
      cases hsets
    rw [hgiven hlength] at hget
    obtain rfl := Except.ok.inj hget
    rw [hvalue] at hnew
    exact ⟨hlength, (nul_free_parse (header_beforeNul_toS c) (nul_not_mem_beforeNul _) hnew).toS⟩
  · rintro ⟨hlength, hnul⟩
    refine ⟨?_, _, hgiven hlength, ?_⟩
    · rw [setStreamid_of_lt hclient behind stored (by rwa [strlen_encode])]
    · rw [hvalue, beforeNul_eq_self hnul]
      exact parse_toS_of_wellFormed lib hc

theorem wellFormed_fullComponents : WellFormed fullComponents where
  resourceName := Or.inr ⟨_, rfl, by decide⟩
  userName := Or.inr ⟨_, rfl, by decide⟩
  mode := ⟨"publish".toList, by decide, rfl⟩
  hostName := Or.inr ⟨_, rfl, by decide, by decide⟩
  type := ⟨"file".toList, by decide, rfl⟩
  sessionid := Or.inr ⟨_, rfl, by decide⟩
  extra := fun e he => by
    obtain rfl : e = (Key.str "baz".toList, Value.str "bar".toList) := List.mem_singleton.mp he
    exact ⟨_, _, rfl, by decide, by decide, by decide⟩

/-- An object with all fields set, on its way between two sockets. -/
theorem arrives_fullComponents :
    Arrives noURILib CString.text openedSocket openedSocket (fun _ => 0) [] fullComponents :=
  (arrives_iff (fun _ => rfl) (by decide) (by decide) (fun _ => 0) [] wellFormed_fullComponents
    (by decide)).mpr (by decide)

end StreamIDComponents

end Rbsrt
