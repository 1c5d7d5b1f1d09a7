import Mathlib.Data.List.TakeWhile
import WirelessGateway.CJson
import WirelessGateway.Lib.CString
import WirelessGateway.Lib.Json

namespace WirelessGateway.StaConfig

open CJson Lib.CString Lib.Json Lib.Region Lib.Utf8

def apiCallStatusComplete : UInt32 := 0x00000000
def apiCallErrorStatusBadArg : UInt32 := 0x80000003
def apiCallErrorStatusNoMem : UInt32 := 0x80000006

structure StaCnf where
  ssid : Bytes
  password : Bytes
  ssid_size : ssid.length = 32
  password_size : password.length = 64

/-- strn_cpy, which lies outside the repository: a text that is shorter than
the size is copied with its terminator. -/
structure StrnCpy where
  strnCpy : Bytes → Nat → Bytes → Bytes
  length_strnCpy : ∀ dst size src, (strnCpy dst size src).length = dst.length
  strnCpy_text : ∀ dst size src, src.length < size → size ≤ dst.length → 0 ∉ src →
    ∃ rest, strnCpy dst size src = src ++ 0 :: rest

inductive StaEvent
  | saveWifiStaConfig (ssid password : Bytes)
  | espWifiSetConfig (ssid password : Bytes)
  | espWifiConnect
  | sendJson (data : Bytes)
  | sendStatus (sta : UInt32)

def ssidName : List Char := ['S', 'S', 'I', 'D']

def passName : List Char := ['P', 'A', 'S', 'S']

def stringValue (json : CJson.Json) (name : List Char) : Option Bytes :=
  match json.getObjectItem name with
  | some (.string valuestring) => some valuestring
  | _ => none

def StaCnf.store (C : StrnCpy) (cnf : StaCnf) (ssid pass : Bytes) : StaCnf where
  ssid := C.strnCpy cnf.ssid 32 (cString ssid)
  password := C.strnCpy cnf.password 64 (cString pass)
  ssid_size := (C.length_strnCpy _ _ _).trans cnf.ssid_size
  password_size := (C.length_strnCpy _ _ _).trans cnf.password_size

def staText (ssid pass : Bytes) : Bytes :=
  bytes ['\x7b', '"', 'S', 'S', 'I', 'D', '"', ':', '"'] ++ ssid ++
    bytes ['"', ',', '"', 'P', 'A', 'S', 'S', '"', ':', '"'] ++ pass ++ bytes ['"', '\x7d']

def staReply (tmpbuf : Bytes) (cnf : StaCnf) : Except Overrun Bytes := do
  let ssid ← text 0 cnf.ssid
  let pass ← text 0 cnf.password
  let len := (staText ssid pass).length
  let tmpbuf ← copy tmpbuf 0 (staText ssid pass ++ [0]) (len + 1)
  pure (tmpbuf.take len)

/-- api_handler_sta. A NULL argument is none, and tmpbuf is not initialised. -/
def apiHandlerSta (P : Platform) (C : StrnCpy) (pending : UInt32) (arg : Option Bytes)
    (tmpbuf : Vector UInt8 128) (cnf : StaCnf) : Except Overrun (StaCnf × List StaEvent) :=
  if pending = 0 then pure (cnf, [])
  else match arg with
    | some arg => match P.parse arg with
      | none => pure (cnf, [.sendStatus apiCallErrorStatusNoMem])
      | some json => match stringValue json ssidName, stringValue json passName with
        | some ssid, some pass => do
          let cnf := cnf.store C ssid pass
          let ssid ← text 0 cnf.ssid
          let pass ← text 0 cnf.password
          pure (cnf, [.saveWifiStaConfig ssid pass, .espWifiSetConfig cnf.ssid cnf.password,
            .espWifiConnect, .sendStatus apiCallStatusComplete])
        | _, _ => pure (cnf, [.sendStatus apiCallErrorStatusBadArg])
    | none => do
      let data ← staReply tmpbuf.toList cnf
      pure (cnf, [.sendJson data, .sendStatus apiCallStatusComplete])

variable {P : Platform} {C : StrnCpy} {s p arg : Bytes} {cnf : StaCnf} {json : CJson.Json}

theorem cString_no_nul (s : Bytes) : 0 ∉ cString s := by
  intro h
  have hne := List.mem_takeWhile_imp (p := fun b : UInt8 => decide (b ≠ 0)) h
  exact absurd rfl (of_decide_eq_true hne)

theorem cString_length (s : Bytes) : (cString s).length ≤ s.length :=
  (List.takeWhile_sublist _).length_le

theorem cString_split (s : Bytes) : s = cString s ∨ ∃ more, s = cString s ++ 0 :: more := by
  have happend : cString s ++ s.dropWhile (fun b => decide (b ≠ 0)) = s :=
    List.takeWhile_append_dropWhile
  cases hdrop : s.dropWhile (fun b => decide (b ≠ 0)) with
  | nil =>
      rw [hdrop, List.append_nil] at happend
      exact Or.inl happend.symm
  | cons b more =>
      have hb := List.head?_dropWhile_not (fun b : UInt8 => decide (b ≠ 0)) s
      rw [hdrop] at hb happend
      have hzero : b = 0 := not_not.1 (of_decide_eq_false hb)
      rw [hzero] at happend
      exact Or.inr ⟨more, happend.symm⟩

theorem cString_plain {text : List Char} (h : Plain text) : cString (utf8 text) = utf8 text := by
  refine List.takeWhile_eq_self_iff.2 ?_
  intro b hb
  obtain ⟨c, hc, hbyte⟩ := List.mem_flatMap.1 hb
  refine decide_eq_true ?_
  rintro rfl
  have hascii := encode_small hbyte (by decide)
  rw [encode_ascii hascii, List.mem_singleton] at hbyte
  have hval := congrArg UInt8.toNat hbyte
  have hctrl := (h c hc).1
  have h0 : (0 : UInt8).toNat = 0 := rfl
  rw [UInt8.toNat_ofNat', h0] at hval
  omega

theorem StrnCpy.text_read (C : StrnCpy) {dst : Bytes} {size : Nat} (hfit : s.length < size)
    (hsize : size ≤ dst.length) : text 0 (C.strnCpy dst size (cString s)) = .ok (cString s) := by
  obtain ⟨rest, hcpy⟩ := C.strnCpy_text dst size (cString s)
    (Nat.lt_of_le_of_lt (cString_length s) hfit) hsize (cString_no_nul s)
  rw [hcpy]
  exact text_append (cString_no_nul s) rest

theorem store_ssid (hs : s.length ≤ 31) : text 0 (cnf.store C s p).ssid = .ok (cString s) :=
  C.text_read (by omega) (Nat.le_of_eq cnf.ssid_size.symm)

theorem store_password (hp : p.length ≤ 63) :
    text 0 (cnf.store C s p).password = .ok (cString p) :=
  C.text_read (by omega) (Nat.le_of_eq cnf.password_size.symm)

theorem staText_length (ssid pass : Bytes) :
    (staText ssid pass).length = ssid.length + pass.length + 21 := by
  simp only [staText, List.length_append]
  simp only [bytes, List.length_map, List.length_cons, List.length_nil]
  omega

theorem apiHandlerSta_accepts (hs : s.length ≤ 31) (hp : p.length ≤ 63)
    (hparse : P.parse arg = some json) (hssid : stringValue json ssidName = some s)
    (hpass : stringValue json passName = some p) {pending : UInt32} (hpending : pending ≠ 0)
    (tmpbuf : Vector UInt8 128) :
    apiHandlerSta P C pending (some arg) tmpbuf cnf = .ok (cnf.store C s p,
      [.saveWifiStaConfig (cString s) (cString p), .espWifiSetConfig (cnf.store C s p).ssid
        (cnf.store C s p).password, .espWifiConnect, .sendStatus apiCallStatusComplete]) := by
  simp only [apiHandlerSta, if_neg hpending, hparse, hssid, hpass, store_ssid hs, store_password hp,
    bind, Except.bind, pure, Except.pure]

theorem apiHandlerSta_replies (hs : s.length ≤ 31) (hp : p.length ≤ 63) {pending : UInt32}
    (hpending : pending ≠ 0) (tmpbuf : Vector UInt8 128) :
    apiHandlerSta P C pending none tmpbuf (cnf.store C s p) = .ok (cnf.store C s p,
      [.sendJson (staText (cString s) (cString p)), .sendStatus apiCallStatusComplete]) := by
  have hs' := cString_length s
  have hp' := cString_length p
  have hlen := staText_length (cString s) (cString p)
  have hbuf : tmpbuf.toList.length = 128 := Vector.length_toList
  have hreply : staReply tmpbuf.toList (cnf.store C s p) =
      .ok (staText (cString s) (cString p)) := by
    simp only [staReply, store_ssid hs, store_password hp, bind, Except.bind]
    have hwhole : (staText (cString s) (cString p) ++ [0]).length =
        (staText (cString s) (cString p)).length + 1 := List.length_append
    rw [copy_ok (by omega) (by omega), ← hwhole, List.take_length, List.take_zero, List.nil_append,
      List.append_assoc]
    dsimp only
    rw [List.take_left']
    · rfl
    · rfl
  simp only [apiHandlerSta, if_neg hpending, hreply, bind, Except.bind, pure, Except.pure]

def staChars (ssid pass : List Char) : List Char :=
  '\x7b' :: memberText (ssidName, '"' :: ssid ++ '"' :: ',' ::
    memberText (passName, '"' :: pass ++ ['"', '\x7d']))

theorem bytes_utf8 {text : List Char} (h : ∀ c ∈ text, c.toNat < 128) : bytes text = utf8 text :=
  (utf8_ascii h).symm

theorem staText_utf8 (ssid pass : List Char) :
    staText (utf8 ssid) (utf8 pass) = utf8 (staChars ssid pass) := by
  rw [staText, bytes_utf8 (by simp), bytes_utf8 (by simp), bytes_utf8 (by simp)]
  simp only [← utf8_append]
  simp [staChars, memberText, ssidName, passName]

theorem staText_chars {ssid pass : Bytes} {text : List Char} (h : utf8 text = staText ssid pass) :
    ∃ S P, utf8 S = ssid ∧ utf8 P = pass ∧ text = staChars S P := by
  rw [staText, bytes_utf8 (by simp), bytes_utf8 (by simp), bytes_utf8 (by simp)] at h
  simp only [List.append_assoc] at h
  obtain ⟨text₁, rfl, h₁⟩ := utf8_front h
  rw [utf8_cons_ascii (by decide), List.cons_append] at h₁
  obtain ⟨S, text₂, rfl, hS, h₂⟩ := utf8_split (by decide) h₁
  obtain ⟨text₃, rfl, h₃⟩ := utf8_front h₂
  rw [utf8_cons_ascii (by decide)] at h₃
  obtain ⟨Q, text₄, rfl, hQ, h₄⟩ := utf8_split (by decide) h₃
  obtain rfl := utf8_injective h₄
  refine ⟨S, Q, hS, hQ, ?_⟩
  simp [staChars, memberText, ssidName, passName]

def UpToNul (whole front : List Char) : Prop :=
  whole = front ∨ ∃ more, whole = front ++ '\x00' :: more

theorem UpToNul.length_le {whole front : List Char} (h : UpToNul whole front) :
    front.length ≤ whole.length := by
  rcases h with rfl | ⟨more, rfl⟩
  · exact Nat.le_refl _
  · rw [List.length_append]
    omega

theorem upToNul_of_cString {whole front : List Char} (h : utf8 front = cString (utf8 whole)) :
    UpToNul whole front := by
  rcases cString_split (utf8 whole) with hwhole | ⟨more, hwhole⟩
  · exact Or.inl (utf8_injective (hwhole.trans h.symm))
  · rw [← h] at hwhole
    obtain ⟨rest, rfl, hrest⟩ := utf8_front hwhole
    obtain ⟨a, b, rfl, ha, -⟩ := utf8_split (s := []) (c := '\x00') (by decide) hrest
    obtain rfl : a = [] := utf8_injective ha
    exact Or.inr ⟨b, rfl⟩

theorem token_ssid {t v S tail rest : List Char} (ht : Token t v) (hv : UpToNul v S)
    (h : S ++ '"' :: ',' :: '"' :: tail = t ++ '"' :: rest) :
    v = S ∧ Plain S ∧ rest = ',' :: '"' :: tail := by
  rcases ht.at_quote hv.length_le h with ⟨-, hsame⟩ | ⟨u, rfl, hu⟩
  · exact hsame
  · exfalso
    have hquote := ht.quote S u rfl
    cases u with
    | nil => cases hu
    | cons c u =>
        obtain ⟨rfl, htail⟩ := List.cons.inj hu
        cases u with
        | nil =>
            have hcomma := ht.comma (by simp)
            have hshort : v.length ≤ S.length + 1 := by
              have hne : v.length ≠ (S ++ ['"', ',']).length := by
                intro heq
                exact ((ht.length_le.2 heq).1 '"' (by simp)).2.1 rfl
              have hle := ht.length_le.1
              rw [List.length_append] at hne hle
              simp only [List.length_cons, List.length_nil] at hne hle
              omega
            rcases hv with rfl | ⟨more, rfl⟩
            · rw [hquote] at hcomma
              simp at hcomma
            · rw [List.length_append, List.length_cons] at hshort
              obtain rfl : more = [] := List.length_eq_zero_iff.1 (by omega)
              simp at hcomma
        | cons d u =>
            obtain ⟨rfl, -⟩ := List.cons.inj htail
            have hinner := ht.quote (S ++ ['"', ',']) u (by simp)
            simp at hinner

theorem token_pass {t v S rest : List Char} (ht : Token t v) (hv : UpToNul v S)
    (h : S ++ ['"', '\x7d'] = t ++ '"' :: rest) : v = S ∧ Plain S := by
  rcases ht.at_quote hv.length_le h with ⟨-, hv, hplain, -⟩ | ⟨u, -, hu⟩
  · exact ⟨hv, hplain⟩
  · exfalso
    cases u with
    | nil => cases hu
    | cons c u =>
        have hnil := (List.cons.inj hu).2
        cases u <;> cases hnil

/-- What the reply reads as, if it is an object with both texts. -/
theorem staChars_read {S Q v w : List Char} {fields : List (List Char × Value)}
    (h : read (staChars S Q) = some (.object fields))
    (hssid : member fields ssidName = some (.string v))
    (hpass : member fields passName = some (.string w))
    (hv : UpToNul v S) (hw : UpToNul w Q) :
    (v = S ∧ Plain S) ∧ w = Q ∧ Plain Q := by
  have hplain : Plain ssidName ∧ Plain passName := by decide
  have hnames : ssidName ≠ passName := by decide
  obtain ⟨fuel, fields', rest', hmembers, heq⟩ := read_object h
  cases heq
  obtain ⟨t, rest, ht, htext, hnext⟩ := member_string hplain.1 hmembers hssid
  obtain ⟨hvS, hS, hrest⟩ := token_ssid ht hv htext
  refine ⟨⟨hvS, hS⟩, ?_⟩
  rw [hrest, skip_of_not_space (by decide)] at hnext
  obtain ⟨n, fields', hmembers', rfl⟩ := hnext _ rfl
  rw [member_other hnames] at hpass
  obtain ⟨t', rest₂, ht', htext', -⟩ := member_string hplain.2 hmembers' hpass
  exact token_pass ht' hw htext'

/-- A text whose characters stand in a JSON string as they are. -/
def Unescaped (data : Bytes) : Prop := ∃ text, Plain text ∧ utf8 text = data

def HasString (fields : List (List Char × Value)) (name : List Char) (data : Bytes) : Prop :=
  ∃ text, member fields name = some (.string text) ∧ utf8 text = data

/-- The request is accepted, and from then on a request without argument is
answered with the SSID and the password of that request. -/
def RoundTrips (P : Platform) (C : StrnCpy) (cnf : StaCnf) (arg s p : Bytes) : Prop :=
  ∃ cnf' events, (∀ pending tmpbuf, pending ≠ 0 →
      apiHandlerSta P C pending (some arg) tmpbuf cnf =
        .ok (cnf', events ++ [.sendStatus apiCallStatusComplete])) ∧
    ∃ reply fields, (∀ pending tmpbuf, pending ≠ 0 →
      apiHandlerSta P C pending none tmpbuf cnf' =
        .ok (cnf', [.sendJson reply, .sendStatus apiCallStatusComplete])) ∧
      reply.length < 128 ∧ IsJson reply (.object fields) ∧
      HasString fields ssidName s ∧ HasString fields passName p

theorem unescaped_of_reply {fields : List (List Char × Value)}
    (hjson : IsJson (staText (cString s) (cString p)) (.object fields))
    (hssid : HasString fields ssidName s) (hpass : HasString fields passName p) :
    Unescaped s ∧ Unescaped p := by
  obtain ⟨text, hbytes, hread⟩ := hjson
  obtain ⟨S, Q, hS, hQ, rfl⟩ := staText_chars hbytes
  obtain ⟨v, hv, rfl⟩ := hssid
  obtain ⟨w, hw, rfl⟩ := hpass
  obtain ⟨⟨rfl, hplain⟩, rfl, hplain'⟩ :=
    staChars_read hread hv hw (upToNul_of_cString hS) (upToNul_of_cString hQ)
  exact ⟨⟨v, hplain, rfl⟩, ⟨w, hplain', rfl⟩⟩

theorem reads_staChars {S Q : List Char} (hS : Plain S) (hQ : Plain Q) :
    Reads (staChars S Q) (.object [(ssidName, .string S), (passName, .string Q)]) := by
  have h := Reads.object [(ssidName, '"' :: S ++ ['"'], .string S),
    (passName, '"' :: Q ++ ['"'], .string Q)] (List.cons_ne_nil _ _) (by
      simp only [List.forall_mem_cons, Reads.string hS, Reads.string hQ, and_true]
      simp only [List.not_mem_nil, false_implies, implies_true, and_true]
      decide)
  have htext : staChars S Q = '\x7b' :: joined [memberText (ssidName, '"' :: S ++ ['"']),
      memberText (passName, '"' :: Q ++ ['"'])] ++ ['\x7d'] := by
    simp [staChars, memberText, joined]
  rw [htext]
  exact h

theorem RoundTrips.unescaped (hs : s.length ≤ 31) (hp : p.length ≤ 63)
    (hparse : P.parse arg = some json) (hssid : stringValue json ssidName = some s)
    (hpass : stringValue json passName = some p) (h : RoundTrips P C cnf arg s p) :
    Unescaped s ∧ Unescaped p := by
  obtain ⟨cnf', events, haccept, reply, fields, hreply, -, hjson, hs', hp'⟩ := h
  have hfirst := haccept 1 (Vector.replicate 128 0) (by decide)
  rw [apiHandlerSta_accepts hs hp hparse hssid hpass (by decide)] at hfirst
  obtain ⟨rfl, -⟩ := Prod.mk.inj (Except.ok.inj hfirst)
  have hsecond := hreply 1 (Vector.replicate 128 0) (by decide)
  rw [apiHandlerSta_replies hs hp (by decide)] at hsecond
  obtain ⟨hsent, -⟩ := List.cons.inj (Prod.mk.inj (Except.ok.inj hsecond)).2
  rw [← StaEvent.sendJson.inj hsent] at hjson
  exact unescaped_of_reply hjson hs' hp'

theorem Unescaped.roundTrips (hs : s.length ≤ 31) (hp : p.length ≤ 63)
    (hparse : P.parse arg = some json) (hssid : stringValue json ssidName = some s)
    (hpass : stringValue json passName = some p) (h : Unescaped s) (h' : Unescaped p) :
    RoundTrips P C cnf arg s p := by
  obtain ⟨S, hS, rfl⟩ := h
  obtain ⟨Q, hQ, rfl⟩ := h'
  refine ⟨cnf.store C (utf8 S) (utf8 Q),
    [.saveWifiStaConfig (cString (utf8 S)) (cString (utf8 Q)),
      .espWifiSetConfig (cnf.store C (utf8 S) (utf8 Q)).ssid
        (cnf.store C (utf8 S) (utf8 Q)).password, .espWifiConnect],
    fun pending tmpbuf hpending => ?_, staText (utf8 S) (utf8 Q),
    [(ssidName, .string S), (passName, .string Q)],
    fun pending tmpbuf hpending => ?_, ?_, ?_, ?_, ?_⟩
  · exact apiHandlerSta_accepts hs hp hparse hssid hpass hpending tmpbuf
  · rw [apiHandlerSta_replies hs hp hpending, cString_plain hS, cString_plain hQ]
  · rw [staText_length]
    omega
  · rw [staText_utf8]
    exact ⟨staChars S Q, rfl, (reads_staChars hS hQ).read⟩
  · exact ⟨S, member_self _ _ _, rfl⟩
  · refine ⟨Q, ?_, rfl⟩
    rw [member_other (by decide), member_self]

/-- Credentials come back as they were given when the reply needs no escapes
for them, and only then. -/
theorem credentials_round_trip (P : Platform) (C : StrnCpy) (cnf : StaCnf) {arg s p : Bytes}
    {json : CJson.Json} (hs : s.length ≤ 31) (hp : p.length ≤ 63)
    (hparse : P.parse arg = some json) (hssid : stringValue json ssidName = some s)
    (hpass : stringValue json passName = some p) :
    RoundTrips P C cnf arg s p ↔ Unescaped s ∧ Unescaped p :=
  ⟨RoundTrips.unescaped hs hp hparse hssid hpass,
    fun h => h.1.roundTrips hs hp hparse hssid hpass h.2⟩

section Samples

def plainCopy : StrnCpy where
  strnCpy dst size src :=
    if 0 < size ∧ size ≤ dst.length then
      src.take (size - 1) ++ 0 :: dst.drop (min src.length (size - 1) + 1)
    else dst
  length_strnCpy dst size src := by
    split
    · simp only [List.length_append, List.length_cons, List.length_take, List.length_drop]
      omega
    · rfl
  strnCpy_text dst size src hsrc hsize _ := by
    rw [if_pos ⟨by omega, hsize⟩, List.take_of_length_le (by omega)]
    exact ⟨_, rfl⟩

def blankCnf : StaCnf := ⟨List.replicate 32 0, List.replicate 64 0, rfl, rfl⟩

def staArg (ssid pass : List Char) : Bytes := bytes (staChars ssid pass)

def staJson (ssid pass : List Char) : CJson.Json :=
  .object [(bytes ssidName, .string (bytes ssid)), (bytes passName, .string (bytes pass))]

def staPlatform (ssid pass escaped : List Char) : Platform where
  parse data := if data = staArg ssid escaped then some (staJson ssid pass) else none
  print _ := []
  msToTicks n := n

theorem staPlatform_parse (ssid pass escaped : List Char) :
    (staPlatform ssid pass escaped).parse (staArg ssid escaped) = some (staJson ssid pass) :=
  if_pos rfl

theorem credentials_round_trip_plain :
    RoundTrips (staPlatform ['n', 'e', 't'] ['k', 'e', 'y'] ['k', 'e', 'y']) plainCopy blankCnf
      (staArg ['n', 'e', 't'] ['k', 'e', 'y']) (bytes ['n', 'e', 't']) (bytes ['k', 'e', 'y']) :=
  (credentials_round_trip _ plainCopy blankCnf (by decide) (by decide)
    (staPlatform_parse _ _ _) rfl rfl).2
    ⟨⟨['n', 'e', 't'], by decide, rfl⟩, ⟨['k', 'e', 'y'], by decide, rfl⟩⟩

/-- A quotation mark in the password ends the reply's string. -/
theorem credentials_quoted : ¬ ∀ (P : Platform) (C : StrnCpy) (cnf : StaCnf) (arg s p : Bytes)
    (json : CJson.Json), s.length ≤ 31 → p.length ≤ 63 → P.parse arg = some json →
      stringValue json ssidName = some s → stringValue json passName = some p →
      RoundTrips P C cnf arg s p := by
  intro h
  have htrip := h (staPlatform ['n', 'e', 't'] ['a', '"', 'b'] ['a', '\\', '"', 'b']) plainCopy
    blankCnf (staArg ['n', 'e', 't'] ['a', '\\', '"', 'b']) (bytes ['n', 'e', 't'])
    (bytes ['a', '"', 'b']) (staJson ['n', 'e', 't'] ['a', '"', 'b']) (by decide) (by decide)
    (staPlatform_parse _ _ _) rfl rfl
  obtain ⟨-, text, hplain, htext⟩ :=
    htrip.unescaped (by decide) (by decide) (staPlatform_parse _ _ _) rfl rfl
  rw [bytes_utf8 (by simp)] at htext
  obtain rfl := utf8_injective htext
  exact absurd hplain (by decide)

end Samples

end WirelessGateway.StaConfig
