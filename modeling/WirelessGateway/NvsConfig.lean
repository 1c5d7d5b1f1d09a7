import WirelessGateway.Lib.Replay
import WirelessGateway.Lib.Runs
import WirelessGateway.StaConfig

namespace WirelessGateway.NvsConfig

open CJson Lib.CString Lib.Region Lib.Replay Lib.Runs StaConfig

inductive Key
  | apSsid
  | apPass
  | staSsid
  | staPass
  deriving DecidableEq

/-- The namespace of the settings. What has been set is in the flash for good
when it has been committed. -/
structure Nvs where
  opened : Bool
  durable : Key → Option Bytes
  pending : List (Key × Option Bytes)

def Nvs.value (nvs : Nvs) : Key → Option Bytes := replay nvs.durable nvs.pending

def Nvs.setStr (nvs : Nvs) (key : Key) (s : Bytes) : Nvs :=
  { nvs with pending := nvs.pending ++ [(key, some s)] }

def Nvs.commit (nvs : Nvs) : Nvs := { nvs with durable := nvs.value, pending := [] }

/-- Some of what has not been committed is kept when the power fails. -/
def Nvs.powerOff (nvs : Nvs) (kept : List (Key × Option Bytes)) : Nvs :=
  { nvs with durable := replay nvs.durable kept, pending := [] }

abbrev Buf (n : Nat) := { b : Bytes // b.length = n }

def Buf.zero (n : Nat) : Buf n := ⟨List.replicate n 0, List.length_replicate⟩

/-- nvs_get_str, with the length that it writes. A text that does not fit is an
error. -/
def Nvs.getStr {n : Nat} (nvs : Nvs) (key : Key) (buf : Buf n) : Option (Buf n × Nat) :=
  match nvs.value key with
  | none => none
  | some s =>
    if h : s.length + 1 ≤ n then
      some (⟨s ++ 0 :: buf.1.drop (s.length + 1), by
        rw [List.length_append, List.length_cons, List.length_drop, buf.2]
        omega⟩, s.length + 1)
    else none

def Buf.strlcpy {n : Nat} (buf : Buf n) (s : Bytes) (size : Nat) : Except Overrun (Buf n) :=
  match h : Lib.CString.strlcpy 0 buf.1 0 (s ++ [0]) size with
  | .error o => .error o
  | .ok mem => .ok ⟨mem, (strlcpy_length h).trans buf.2⟩

def Nvs.getOr {n : Nat} (nvs : Nvs) (key : Key) (buf : Buf n) (default : Bytes) :
    Except Overrun (Buf n) :=
  match nvs.getStr key buf with
  | some (buf, _) => .ok buf
  | none => buf.strlcpy default n

inductive AuthMode
  | opened
  | wpa2Psk
  deriving DecidableEq

structure ApCnf where
  ssid : Buf 32
  ssidLen : Nat
  password : Buf 64
  maxConnection : Nat
  authmode : AuthMode

structure App where
  ap : ApCnf
  sta : StaCnf

structure Config where
  apSsid : Bytes
  apPass : Bytes
  staSsid : Bytes
  staPass : Bytes
  free : 0 ∉ apSsid ∧ 0 ∉ apPass ∧ 0 ∉ staSsid ∧ 0 ∉ staPass

def zeroApp : App where
  ap := ⟨.zero 32, 0, .zero 64, 0, .opened⟩
  sta := ⟨(Buf.zero 32).1, (Buf.zero 64).1, (Buf.zero 32).2, (Buf.zero 64).2⟩

def App.setSta (app : App) (ssid : Buf 32) (password : Buf 64) : App :=
  { app with sta := ⟨ssid.1, password.1, ssid.2, password.2⟩ }

def loadConfigDefault (cfg : Config) (app : App) : Except Overrun App := do
  let ssidLen := min (cfg.apSsid.length + 1) 32
  let ssid ← app.ap.ssid.strlcpy cfg.apSsid ssidLen
  let passLen := min (cfg.apPass.length + 1) 64
  let password ← app.ap.password.strlcpy cfg.apPass passLen
  let staSsid ← Buf.strlcpy ⟨app.sta.ssid, app.sta.ssid_size⟩ cfg.staSsid 32
  let staPassword ← Buf.strlcpy ⟨app.sta.password, app.sta.password_size⟩ cfg.staPass 64
  pure (App.setSta { app with ap := ⟨ssid, ssidLen, password, 4, .wpa2Psk⟩ } staSsid staPassword)

def clearFirst (buf : Buf 64) : Buf 64 := ⟨buf.1.set 0 0, (List.length_set).trans buf.2⟩

def loadConfig (cfg : Config) (nvs : Nvs) (app : App) : Except Overrun App :=
  if !nvs.opened then loadConfigDefault cfg app
  else do
    let (ssid, ssidLen) := (nvs.getStr .apSsid app.ap.ssid).getD (app.ap.ssid, 0)
    let password := ((nvs.getStr .apPass app.ap.password).map (fun r => r.1)).getD
      (clearFirst app.ap.password)
    let staSsid ← nvs.getOr .staSsid ⟨app.sta.ssid, app.sta.ssid_size⟩ cfg.staSsid
    let staPassword ← nvs.getOr .staPass ⟨app.sta.password, app.sta.password_size⟩ cfg.staPass
    pure (App.setSta { app with ap := { app.ap with ssid := ssid, ssidLen := ssidLen, password := password } }
      staSsid staPassword)

inductive Saving
  | idle
  | opening (ssid password : Bytes)
  | ssid (ssid password : Bytes)
  | pass (password : Bytes)
  | committing

structure Save where
  ssid : Bytes
  pass : Bytes
  done : Bool
  deriving DecidableEq

/-- The board, with the saves, the latest first. It is off without its context. -/
structure Board where
  nvs : Nvs
  app : Option App
  saving : Saving
  log : List Save

inductive Label
  | request (pending : UInt32) (arg : Option Bytes) (tmpbuf : Vector UInt8 128)
  | save
  | powerOff (kept : List (Key × Option Bytes))
  | boot

def saved (events : List StaEvent) : Option (Bytes × Bytes) :=
  events.findSome? (fun e => match e with
    | .saveWifiStaConfig ssid password => some (ssid, password)
    | _ => none)

def finished : List Save → List Save
  | [] => []
  | x :: log => { x with done := true } :: log

def Board.request (P : Platform) (C : StrnCpy) (b : Board) (app : App) (pending : UInt32)
    (arg : Option Bytes) (tmpbuf : Vector UInt8 128) : Except Overrun Board := do
  let (sta, events) ← apiHandlerSta P C pending arg tmpbuf app.sta
  match saved events with
  | none => pure { b with app := some { app with sta := sta } }
  | some (ssid, password) =>
    pure { b with app := some { app with sta := sta }, saving := .opening ssid password,
                  log := ⟨ssid, password, false⟩ :: b.log }

def Board.save (b : Board) : Option Board :=
  match b.saving with
  | .idle => none
  | .opening ssid password =>
    some { b with nvs := { b.nvs with opened := true }, saving := .ssid ssid password }
  | .ssid ssid password => some { b with nvs := b.nvs.setStr .staSsid ssid, saving := .pass password }
  | .pass password => some { b with nvs := b.nvs.setStr .staPass password, saving := .committing }
  | .committing => some { b with nvs := b.nvs.commit, saving := .idle, log := finished b.log }

def Board.isIdle (b : Board) : Bool :=
  match b.saving with
  | .idle => true
  | _ => false

/-- Power can be lost between any two calls, and a call that fails restarts the
board. Requests are served one after the other. -/
def step (cfg : Config) (P : Platform) (C : StrnCpy) (b : Board) : Label → Option (Except Overrun Board)
  | .request pending arg tmpbuf =>
    match b.app with
    | none => none
    | some app => if b.isIdle then some (b.request P C app pending arg tmpbuf) else none
  | .save => b.save.map .ok
  | .powerOff kept =>
    if kept.isSublist b.nvs.pending then
      some (.ok { b with nvs := b.nvs.powerOff kept, app := none, saving := .idle })
    else none
  | .boot =>
    match b.app with
    | some _ => none
    | none => some ((loadConfig cfg b.nvs zeroApp).map (fun app => { b with app := some app }))

def machine (cfg : Config) (P : Platform) (C : StrnCpy) : Machine Board Label Overrun where
  init b := b = ⟨⟨false, fun _ => none, []⟩, none, .idle, []⟩
  step := step cfg P C

section Loading

variable {n : Nat} {nvs : Nvs} {key : Key} {s : Bytes}

theorem Buf.strlcpy_text (buf : Buf n) {size : Nat} (hs : 0 ∉ s) (hpos : 0 < size) (hsize : size ≤ n) :
    ∃ mem, buf.strlcpy s size = .ok mem ∧ text 0 mem.1 = .ok (s.take (size - 1)) := by
  have hcopy := strlcpy_append buf.1 0 size hs hpos (by rw [buf.2]; omega) []
  rw [List.take_zero, List.nil_append] at hcopy
  refine ⟨⟨_, (strlcpy_length hcopy).trans buf.2⟩, ?_, ?_⟩
  · rw [Buf.strlcpy]
    split
    · next o h =>
      rw [hcopy] at h
      cases h
    · next mem h =>
      rw [hcopy] at h
      cases h
      rfl
  · exact text_append (fun h => hs (List.mem_of_mem_take h)) _

theorem getStr_none (h : nvs.value key = none) (buf : Buf n) : nvs.getStr key buf = none := by
  rw [Nvs.getStr, h]

theorem getStr_some (h : nvs.value key = some s) (hs : 0 ∉ s) (hfit : s.length + 1 ≤ n) (buf : Buf n) :
    ∃ buf', nvs.getStr key buf = some (buf', s.length + 1) ∧ text 0 buf'.1 = .ok s := by
  rw [Nvs.getStr, h]
  dsimp only
  rw [dif_pos hfit]
  exact ⟨_, rfl, text_append hs _⟩

theorem getOr_text (buf : Buf n) (default : Bytes) (hdefault : 0 ∉ default) (hn : 0 < n)
    (hfit : ∀ s, nvs.value key = some s → 0 ∉ s ∧ s.length + 1 ≤ n) :
    ∃ mem, nvs.getOr key buf default = .ok mem ∧
      text 0 mem.1 = .ok ((nvs.value key).getD (default.take (n - 1))) := by
  rw [Nvs.getOr]
  cases hv : nvs.value key with
  | none =>
    rw [getStr_none hv]
    exact buf.strlcpy_text hdefault hn (Nat.le_refl n)
  | some s =>
    obtain ⟨hs, hlen⟩ := hfit s hv
    obtain ⟨buf', hget, htext⟩ := getStr_some hv hs hlen buf
    rw [hget]
    exact ⟨buf', rfl, htext⟩

structure ApDefault (cfg : Config) (ap : ApCnf) : Prop where
  ssid : text 0 ap.ssid.1 = .ok (cfg.apSsid.take 31)
  ssidLen : ap.ssidLen = min (cfg.apSsid.length + 1) 32
  password : text 0 ap.password.1 = .ok (cfg.apPass.take 63)
  maxConnection : ap.maxConnection = 4
  authmode : ap.authmode = .wpa2Psk

structure ApBlank (ap : ApCnf) : Prop where
  ssid : text 0 ap.ssid.1 = .ok []
  ssidLen : ap.ssidLen = 0
  password : text 0 ap.password.1 = .ok []
  maxConnection : ap.maxConnection = 0
  authmode : ap.authmode = .opened

theorem take_sized (s : Bytes) (n : Nat) : s.take (min (s.length + 1) (n + 1) - 1) = s.take n := by
  rw [List.take_eq_take_iff]
  omega

theorem loadConfigDefault_ok (cfg : Config) : ∃ app, loadConfigDefault cfg zeroApp = .ok app ∧
    ApDefault cfg app.ap ∧ text 0 app.sta.ssid = .ok (cfg.staSsid.take 31) ∧
    text 0 app.sta.password = .ok (cfg.staPass.take 63) := by
  obtain ⟨hapSsid, hapPass, hstaSsid, hstaPass⟩ := cfg.free
  obtain ⟨ssid, hssid, hssid'⟩ := zeroApp.ap.ssid.strlcpy_text hapSsid
    (show 0 < min (cfg.apSsid.length + 1) 32 by omega) (Nat.min_le_right _ _)
  obtain ⟨pass, hpass, hpass'⟩ := zeroApp.ap.password.strlcpy_text hapPass
    (show 0 < min (cfg.apPass.length + 1) 64 by omega) (Nat.min_le_right _ _)
  obtain ⟨sta, hsta, hsta'⟩ := Buf.strlcpy_text ⟨zeroApp.sta.ssid, zeroApp.sta.ssid_size⟩ hstaSsid
    (show 0 < 32 by decide) (Nat.le_refl _)
  obtain ⟨key, hkey, hkey'⟩ := Buf.strlcpy_text ⟨zeroApp.sta.password, zeroApp.sta.password_size⟩ hstaPass
    (show 0 < 64 by decide) (Nat.le_refl _)
  rw [take_sized cfg.apSsid 31] at hssid'
  rw [take_sized cfg.apPass 63] at hpass'
  refine ⟨App.setSta { zeroApp with ap := ⟨ssid, min (cfg.apSsid.length + 1) 32, pass, 4, .wpa2Psk⟩ }
    sta key, ?_, ⟨hssid', rfl, hpass', rfl, rfl⟩, hsta', hkey'⟩
  simp only [loadConfigDefault, hssid, hpass, hsta, hkey, bind, Except.bind]
  rfl

theorem loadConfig_ok {cfg : Config}
    (hssid : ∀ s, nvs.value .staSsid = some s → 0 ∉ s ∧ s.length + 1 ≤ 32)
    (hpass : ∀ s, nvs.value .staPass = some s → 0 ∉ s ∧ s.length + 1 ≤ 64)
    (hap : nvs.value .apSsid = none ∧ nvs.value .apPass = none)
    (hclosed : nvs.opened = false → nvs.value .staSsid = none ∧ nvs.value .staPass = none) :
    ∃ app, loadConfig cfg nvs zeroApp = .ok app ∧
      (nvs.opened = false → ApDefault cfg app.ap) ∧ (nvs.opened = true → ApBlank app.ap) ∧
      text 0 app.sta.ssid = .ok ((nvs.value .staSsid).getD (cfg.staSsid.take 31)) ∧
      text 0 app.sta.password = .ok ((nvs.value .staPass).getD (cfg.staPass.take 63)) := by
  rw [loadConfig]
  cases hopened : nvs.opened with
  | false =>
    obtain ⟨hssid', hpass'⟩ := hclosed hopened
    obtain ⟨app, happ, hdefault, hsta, hkey⟩ := loadConfigDefault_ok cfg
    rw [hssid', hpass']
    exact ⟨app, happ, fun _ => hdefault, fun h => absurd h (by decide), hsta, hkey⟩
  | true =>
    obtain ⟨-, -, hstaSsid, hstaPass⟩ := cfg.free
    obtain ⟨sta, hsta, hsta'⟩ := getOr_text ⟨zeroApp.sta.ssid, zeroApp.sta.ssid_size⟩ cfg.staSsid hstaSsid
      (by decide) hssid
    obtain ⟨key, hkey, hkey'⟩ := getOr_text ⟨zeroApp.sta.password, zeroApp.sta.password_size⟩ cfg.staPass
      hstaPass (by decide) hpass
    simp only [getStr_none hap.1, getStr_none hap.2, hsta, hkey, bind, Except.bind]
    exact ⟨_, rfl, fun h => absurd h (by decide), fun _ => ⟨rfl, rfl, rfl, rfl, rfl⟩, hsta', hkey'⟩

end Loading

section Runs

variable {cfg : Config} {P : Platform} {C : StrnCpy} {b b' : Board}

/-- The saves that a loss of power can bring back: the last one that came to
its end, and the ones after it. -/
def recent : List Save → List Save
  | [] => []
  | x :: log => if x.done then [x] else x :: recent log

/-- A text of the flash is one of a recent save, and is missing only as long as
no save has come to its end. -/
def From (log : List Save) (field : Save → Bytes) (v : Option Bytes) : Prop :=
  (∃ x ∈ recent log, v = some (field x)) ∨ (v = none ∧ ∀ x ∈ log, x.done = false)

inductive InSave (nvs : Nvs) (log : List Save) (saving : Saving) : Prop
  | idle (hsaving : saving = .idle) (hpending : nvs.pending = [])
  | opening (x : Save) (rest : List Save) (hlog : log = x :: rest) (hdone : x.done = false)
      (hsaving : saving = .opening x.ssid x.pass) (hpending : nvs.pending = [])
  | ssid (x : Save) (rest : List Save) (hlog : log = x :: rest) (hdone : x.done = false)
      (hsaving : saving = .ssid x.ssid x.pass) (hpending : nvs.pending = [])
      (hopened : nvs.opened = true)
  | pass (x : Save) (rest : List Save) (hlog : log = x :: rest) (hdone : x.done = false)
      (hsaving : saving = .pass x.pass) (hpending : nvs.pending = [(.staSsid, some x.ssid)])
      (hopened : nvs.opened = true)
  | committing (x : Save) (rest : List Save) (hlog : log = x :: rest) (hdone : x.done = false)
      (hsaving : saving = .committing)
      (hpending : nvs.pending = [(.staSsid, some x.ssid), (.staPass, some x.pass)])
      (hopened : nvs.opened = true)

structure Holds (log : List Save) (opened : Bool) (d : Key → Option Bytes) : Prop where
  ssid : From log Save.ssid (d .staSsid)
  pass : From log Save.pass (d .staPass)
  ap : d .apSsid = none ∧ d .apPass = none
  closed : opened = false → d .staSsid = none ∧ d .staPass = none

def Fits (s : Bytes) (n : Nat) : Prop := 0 ∉ s ∧ s.length + 1 ≤ n

structure Kept (b : Board) : Prop where
  holds : Holds b.log b.nvs.opened b.nvs.durable
  saving : InSave b.nvs b.log b.saving
  fits : ∀ x ∈ b.log, Fits x.ssid 32 ∧ Fits x.pass 64
  unopened : b.log = [] → b.nvs.opened = false
  opened : ∀ x ∈ b.log, x.done = true → b.nvs.opened = true

variable {log : List Save} {field : Save → Bytes} {v : Option Bytes} {x : Save}

theorem From.cons (h : From log field v) (hx : x.done = false) : From (x :: log) field v := by
  rcases h with ⟨y, hy, rfl⟩ | ⟨rfl, hall⟩
  · refine Or.inl ⟨y, ?_, rfl⟩
    rw [recent, if_neg (by rw [hx]; decide)]
    exact List.mem_cons_of_mem _ hy
  · refine Or.inr ⟨rfl, ?_⟩
    simpa [hx] using hall

theorem From.latest (hx : x.done = false) : From (x :: log) field (some (field x)) := by
  refine Or.inl ⟨x, ?_, rfl⟩
  rw [recent, if_neg (by rw [hx]; decide)]
  exact List.mem_cons_self

theorem InSave.pending {nvs : Nvs} {saving : Saving} (h : InSave nvs log saving) :
    nvs.pending = [] ∨ ∃ x rest, log = x :: rest ∧ x.done = false ∧ nvs.opened = true ∧
      ∀ e ∈ nvs.pending, e = (.staSsid, some x.ssid) ∨ e = (.staPass, some x.pass) := by
  cases h with
  | idle _ hpending => exact Or.inl hpending
  | opening _ _ _ _ _ hpending => exact Or.inl hpending
  | ssid _ _ _ _ _ hpending _ => exact Or.inl hpending
  | pass x rest hlog hdone _ hpending hopened =>
    refine Or.inr ⟨x, rest, hlog, hdone, hopened, ?_⟩
    rw [hpending]
    simp
  | committing x rest hlog hdone _ hpending hopened =>
    refine Or.inr ⟨x, rest, hlog, hdone, hopened, ?_⟩
    rw [hpending]
    simp

theorem replay_edits {d : Key → Option Bytes} {kept : List (Key × Option Bytes)} (key : Key)
    (h : ∀ e ∈ kept, e = (.staSsid, some x.ssid) ∨ e = (.staPass, some x.pass)) :
    replay d kept key = d key ∨ (key = .staSsid ∧ replay d kept key = some x.ssid) ∨
      (key = .staPass ∧ replay d kept key = some x.pass) := by
  rcases replay_cases d kept key with hsame | ⟨e, he, rfl, hval⟩
  · exact Or.inl hsame
  · rcases h e he with rfl | rfl
    · exact Or.inr (Or.inl ⟨rfl, hval⟩)
    · exact Or.inr (Or.inr ⟨rfl, hval⟩)

theorem Kept.replayed (h : Kept b) {kept : List (Key × Option Bytes)}
    (hkept : ∀ e ∈ kept, e ∈ b.nvs.pending) :
    Holds b.log b.nvs.opened (replay b.nvs.durable kept) := by
  rcases h.saving.pending with hnone | ⟨x, rest, hlog, hdone, hopened, hpending⟩
  · rw [hnone] at hkept
    rw [List.eq_nil_iff_forall_not_mem.2 (fun e he => absurd (hkept e he) List.not_mem_nil)]
    exact h.holds
  · have hedit : ∀ e ∈ kept, e = (Key.staSsid, some x.ssid) ∨ e = (Key.staPass, some x.pass) :=
      fun e he => hpending e (hkept e he)
    constructor
    · rcases replay_edits (d := b.nvs.durable) .staSsid hedit with hsame | ⟨-, hval⟩ | ⟨hk, -⟩
      · rw [hsame]
        exact h.holds.ssid
      · rw [hval, hlog]
        exact From.latest hdone
      · cases hk
    · rcases replay_edits (d := b.nvs.durable) .staPass hedit with hsame | ⟨hk, -⟩ | ⟨-, hval⟩
      · rw [hsame]
        exact h.holds.pass
      · cases hk
      · rw [hval, hlog]
        exact From.latest hdone
    · have hkeep : ∀ key, key ≠ .staSsid → key ≠ .staPass → replay b.nvs.durable kept key =
          b.nvs.durable key := fun key hssid hpass =>
        (replay_edits key hedit).resolve_right (fun hor => hor.elim (fun h => hssid h.1) (fun h => hpass h.1))
      exact ⟨(hkeep _ (by decide) (by decide)).trans h.holds.ap.1, (hkeep _ (by decide) (by decide)).trans h.holds.ap.2⟩
    · intro hclosed
      rw [hopened] at hclosed
      cases hclosed

theorem saved_fits {pending : UInt32} {arg : Option Bytes} {tmpbuf : Vector UInt8 128} {cnf sta : StaCnf}
    {events : List StaEvent} {ssid password : Bytes}
    (h : apiHandlerSta P C pending arg tmpbuf cnf = .ok (sta, events))
    (hsaved : saved events = some (ssid, password)) :
    Fits ssid 32 ∧ Fits password 64 := by
  have hread : ∀ {n : Nat} {mem s : Bytes}, mem.length = n → text 0 mem = .ok s → Fits s n := by
    intro n mem s hlen htext
    obtain ⟨hfree, rest, hmem⟩ := text_ok htext
    rw [hmem, List.length_append, List.length_cons] at hlen
    exact ⟨hfree, by omega⟩
  simp only [apiHandlerSta] at h
  split at h
  · cases h
    cases hsaved
  · split at h
    · split at h
      · cases h
        cases hsaved
      · split at h
        · next s p _ _ =>
          simp only [bind, Except.bind] at h
          split at h
          · cases h
          · next s' hs =>
            split at h
            · cases h
            · next p' hp =>
              cases h
              cases hsaved
              exact ⟨hread (StaCnf.ssid_size _) hs, hread (StaCnf.password_size _) hp⟩
        · cases h
          cases hsaved
    · simp only [bind, Except.bind] at h
      split at h
      · cases h
      · cases h
        cases hsaved

theorem save_kept (hb : Kept b) (h : b.save = some b') : Kept b' := by
  cases hb.saving with
  | idle hsaving hpending =>
    rw [Board.save, hsaving] at h
    cases h
  | opening x rest hlog hdone hsaving hpending =>
    rw [Board.save, hsaving] at h
    cases h
    refine ⟨⟨hb.holds.ssid, hb.holds.pass, hb.holds.ap, fun hclosed => Bool.noConfusion hclosed⟩,
      .ssid x rest hlog hdone rfl hpending rfl, hb.fits, fun hnil => ?_, fun _ _ _ => rfl⟩
    rw [hlog] at hnil
    cases hnil
  | ssid x rest hlog hdone hsaving hpending hopened =>
    rw [Board.save, hsaving] at h
    cases h
    exact ⟨hb.holds, .pass x rest hlog hdone rfl (congrArg (· ++ [_]) hpending) hopened, hb.fits,
      hb.unopened, hb.opened⟩
  | pass x rest hlog hdone hsaving hpending hopened =>
    rw [Board.save, hsaving] at h
    cases h
    exact ⟨hb.holds, .committing x rest hlog hdone rfl (congrArg (· ++ [_]) hpending) hopened, hb.fits,
      hb.unopened, hb.opened⟩
  | committing x rest hlog hdone hsaving hpending hopened =>
    rw [Board.save, hsaving] at h
    cases h
    have hap := (hb.replayed (fun e he => he)).ap
    have hvalue : b.nvs.value .staSsid = some x.ssid ∧ b.nvs.value .staPass = some x.pass := by
      rw [Nvs.value, hpending]
      exact ⟨rfl, rfl⟩
    have hlatest : ∀ field : Save → Bytes, (∀ y : Save, field { y with done := true } = field y) →
        From (finished b.log) field (some (field x)) := by
      intro field hfield
      rw [hlog]
      exact Or.inl ⟨{ x with done := true }, List.mem_singleton_self _, congrArg some (hfield x).symm⟩
    refine ⟨⟨?_, ?_, hap, fun hclosed => ?_⟩, .idle rfl rfl, fun y hy => ?_, fun hnil => ?_,
      fun _ _ _ => hopened⟩
    · change From (finished b.log) Save.ssid (b.nvs.value .staSsid)
      rw [hvalue.1]
      exact hlatest Save.ssid (fun _ => rfl)
    · change From (finished b.log) Save.pass (b.nvs.value .staPass)
      rw [hvalue.2]
      exact hlatest Save.pass (fun _ => rfl)
    · exact absurd (hopened.symm.trans hclosed) (by decide)
    · dsimp only at hy
      rw [hlog, finished] at hy
      rcases List.mem_cons.1 hy with rfl | hy
      · exact hb.fits x (by rw [hlog]; exact List.mem_cons_self)
      · exact hb.fits y (by rw [hlog]; exact List.mem_cons_of_mem _ hy)
    · dsimp only at hnil
      rw [hlog] at hnil
      cases hnil

theorem Kept.idle (hb : Kept b) (h : b.isIdle = true) : b.saving = .idle ∧ b.nvs.pending = [] := by
  cases hb.saving with
  | idle hsaving hpending => exact ⟨hsaving, hpending⟩
  | opening _ _ _ _ hsaving _ | ssid _ _ _ _ hsaving _ _ | pass _ _ _ _ hsaving _ _
    | committing _ _ _ _ hsaving _ _ =>
    rw [Board.isIdle, hsaving] at h
    cases h

theorem request_kept {app : App} {pending : UInt32} {arg : Option Bytes} {tmpbuf : Vector UInt8 128}
    (hb : Kept b) (hidle : b.isIdle = true) (h : b.request P C app pending arg tmpbuf = .ok b') :
    Kept b' := by
  obtain ⟨-, hpending⟩ := hb.idle hidle
  simp only [Board.request, bind, Except.bind] at h
  split at h
  · cases h
  · next r hr =>
    split at h
    · cases h
      exact ⟨hb.holds, hb.saving, hb.fits, hb.unopened, hb.opened⟩
    · next ssid password hsaved =>
      cases h
      obtain ⟨hssid, hpass⟩ := saved_fits hr hsaved
      refine ⟨⟨hb.holds.ssid.cons rfl, hb.holds.pass.cons rfl, hb.holds.ap, hb.holds.closed⟩,
        .opening ⟨ssid, password, false⟩ b.log rfl rfl rfl hpending, fun y hy => ?_, fun hnil => ?_,
        fun y hy hdone => ?_⟩
      · rcases List.mem_cons.1 hy with rfl | hy
        · exact ⟨hssid, hpass⟩
        · exact hb.fits y hy
      · cases hnil
      · rcases List.mem_cons.1 hy with rfl | hy
        · cases hdone
        · exact hb.opened y hy hdone

theorem step_kept {l : Label} (hb : Kept b) (h : (machine cfg P C).Step b l b') : Kept b' := by
  cases l with
  | request pending arg tmpbuf =>
    simp only [Machine.Step, machine, step] at h
    split at h
    · cases h
    · split at h
      · next hidle => exact request_kept hb hidle (Option.some.inj h)
      · cases h
  | save =>
    obtain ⟨b'', hsave, heq⟩ := Option.map_eq_some_iff.1 h
    cases heq
    exact save_kept hb hsave
  | powerOff kept =>
    simp only [Machine.Step, machine, step] at h
    split at h
    · next hsub =>
      cases h
      have hmem : ∀ e ∈ kept, e ∈ b.nvs.pending := (List.isSublist_iff_sublist.1 hsub).subset
      exact ⟨hb.replayed hmem, .idle rfl rfl, hb.fits, hb.unopened, hb.opened⟩
    · cases h
  | boot =>
    simp only [Machine.Step, machine, step] at h
    split at h
    · cases h
    · cases happ : loadConfig cfg b.nvs zeroApp with
      | error o =>
        rw [happ] at h
        cases h
      | ok app =>
        rw [happ] at h
        cases h
        exact ⟨hb.holds, hb.saving, hb.fits, hb.unopened, hb.opened⟩

theorem reachable_kept (h : Reachable (machine cfg P C) b) : Kept b := by
  refine h.invariant (fun b hb => ?_) (fun b l b' _ hb hstep => step_kept hb hstep)
  rw [show b = ⟨⟨false, fun _ => none, []⟩, none, .idle, []⟩ from hb]
  have hnone : ∀ x ∈ ([] : List Save), x.done = false := fun x hx => absurd hx List.not_mem_nil
  exact ⟨⟨Or.inr ⟨rfl, hnone⟩, Or.inr ⟨rfl, hnone⟩, ⟨rfl, rfl⟩, fun _ => ⟨rfl, rfl⟩⟩, .idle rfl rfl,
    fun x hx => absurd hx List.not_mem_nil, fun _ => rfl, fun x hx => absurd hx List.not_mem_nil⟩

/-- A text that a boot may come up with. -/
def Restored (log : List Save) (field : Save → Bytes) (default s : Bytes) : Prop :=
  (∃ x ∈ recent log, s = field x) ∨ (s = default ∧ ∀ x ∈ log, x.done = false)

theorem From.restored {s default : Bytes} (h : From log field v) (hs : s = v.getD default) :
    Restored log field default s := by
  rcases h with ⟨x, hx, rfl⟩ | ⟨rfl, hall⟩
  · exact Or.inl ⟨x, hx, hs⟩
  · exact Or.inr ⟨hs, hall⟩

theorem recent_subset : ∀ {log : List Save}, ∀ x ∈ recent log, x ∈ log
  | y :: log, x, hx => by
    rw [recent] at hx
    split at hx
    · exact List.mem_cons.2 (Or.inl (List.mem_singleton.1 hx))
    · rcases List.mem_cons.1 hx with rfl | hx
      · exact List.mem_cons_self
      · exact List.mem_cons_of_mem _ (recent_subset x hx)

theorem From.fits {n : Nat} {s : Bytes} (h : From log field v) (hall : ∀ x ∈ log, Fits (field x) n)
    (hv : v = some s) : Fits s n := by
  rcases h with ⟨x, hx, rfl⟩ | ⟨rfl, -⟩
  · cases hv
    exact hall x (recent_subset x hx)
  · cases hv

theorem boot_loads (h : Reachable (machine cfg P C) b) (hoff : b.app = none) : ∃ b' app,
    (machine cfg P C).Step b .boot b' ∧ b'.app = some app ∧
      (b.nvs.opened = false → ApDefault cfg app.ap) ∧ (b.nvs.opened = true → ApBlank app.ap) ∧
      text 0 app.sta.ssid = .ok ((b.nvs.value .staSsid).getD (cfg.staSsid.take 31)) ∧
      text 0 app.sta.password = .ok ((b.nvs.value .staPass).getD (cfg.staPass.take 63)) := by
  have hkept := reachable_kept h
  have hvalue : Holds b.log b.nvs.opened b.nvs.value := hkept.replayed (fun _ he => he)
  obtain ⟨app, happ, hrest⟩ := @loadConfig_ok b.nvs cfg
    (fun s hs => hvalue.ssid.fits (fun x hx => (hkept.fits x hx).1) hs)
    (fun s hs => hvalue.pass.fits (fun x hx => (hkept.fits x hx).2) hs) hvalue.ap hvalue.closed
  refine ⟨{ b with app := some app }, app, ?_, rfl, hrest⟩
  simp only [Machine.Step, machine, step, hoff, happ, Except.map]

/-- A boot comes up with what the last save of the station's settings that came
to its end has stored, or, each text on its own, with what a later save was
about to store when the power failed, and with the defaults only when no save
has ever come to its end. -/
theorem sta_restored (h : Reachable (machine cfg P C) b) (hoff : b.app = none) :
    ∃ b' app ssid password, (machine cfg P C).Step b .boot b' ∧ b'.app = some app ∧
      text 0 app.sta.ssid = .ok ssid ∧ text 0 app.sta.password = .ok password ∧
      Restored b.log Save.ssid (cfg.staSsid.take 31) ssid ∧
      Restored b.log Save.pass (cfg.staPass.take 63) password := by
  have hvalue : Holds b.log b.nvs.opened b.nvs.value :=
    (reachable_kept h).replayed (fun _ he => he)
  obtain ⟨b', app, hstep, happ, -, -, hssid, hpass⟩ := boot_loads h hoff
  exact ⟨b', app, _, _, hstep, happ, hssid, hpass, hvalue.ssid.restored rfl,
    hvalue.pass.restored rfl⟩

/-- The access point of the build's configuration is there until the first save
of the station's settings. At the boot after it, there is an access point
without a name or a password and for no clients. -/
theorem ap_forgotten (h : Reachable (machine cfg P C) b) (hoff : b.app = none) :
    ∃ b' app, (machine cfg P C).Step b .boot b' ∧ b'.app = some app ∧
      (ApDefault cfg app.ap ∨ ApBlank app.ap) ∧ (b.log = [] → ApDefault cfg app.ap) ∧
      ((∃ x ∈ b.log, x.done = true) → ApBlank app.ap) := by
  have hkept := reachable_kept h
  obtain ⟨b', app, hstep, happ, hdefault, hblank, -⟩ := boot_loads h hoff
  refine ⟨b', app, hstep, happ, ?_, fun hnil => hdefault (hkept.unopened hnil), ?_⟩
  · cases hopened : b.nvs.opened with
    | false => exact Or.inl (hdefault hopened)
    | true => exact Or.inr (hblank hopened)
  · rintro ⟨x, hx, hdone⟩
    exact hblank (hkept.opened x hx hdone)

end Runs

section Samples

def netConfig : Config where
  apSsid := bytes ['T', 'e', 's', 't']
  apPass := bytes ['1', '2', '3', '4']
  staSsid := []
  staPass := []
  free := by decide

def twoRequests : Platform where
  parse data :=
    if data = staArg ['n', 'e', 't'] ['k', 'e', 'y'] then some (staJson ['n', 'e', 't'] ['k', 'e', 'y'])
    else if data = staArg ['l', 'a', 'b'] ['l', 'o', 'c', 'k'] then
      some (staJson ['l', 'a', 'b'] ['l', 'o', 'c', 'k'])
    else none
  print _ := []
  msToTicks n := n

def tornSave : List Label :=
  [.boot, .request 1 (some (staArg ['n', 'e', 't'] ['k', 'e', 'y'])) (Vector.replicate 128 0),
    .save, .save, .save, .save,
    .request 1 (some (staArg ['l', 'a', 'b'] ['l', 'o', 'c', 'k'])) (Vector.replicate 128 0),
    .save, .save, .save, .powerOff [(.staSsid, some (bytes ['l', 'a', 'b']))]]

def tornLog : List Save :=
  [⟨bytes ['l', 'a', 'b'], bytes ['l', 'o', 'c', 'k'], false⟩,
    ⟨bytes ['n', 'e', 't'], bytes ['k', 'e', 'y'], true⟩]

theorem torn_reached : ∃ b, Reachable (machine netConfig twoRequests plainCopy) b ∧ b.app = none ∧
    b.log = tornLog := by
  have hreaches : (machine netConfig twoRequests plainCopy).reaches
      ⟨⟨false, fun _ => none, []⟩, none, .idle, []⟩ tornSave
      (fun b => b.app.isNone && decide (b.log = tornLog)) = true := by decide +kernel
  obtain ⟨b, hrun, hb⟩ := exists_of_reaches hreaches
  simp only [Bool.and_eq_true, Option.isNone_iff_eq_none, decide_eq_true_eq] at hb
  exact ⟨b, ⟨_, _, rfl, hrun⟩, hb⟩

theorem sta_restored_torn : ∃ b, Reachable (machine netConfig twoRequests plainCopy) b ∧ b.log = tornLog ∧
    ∃ b' app ssid password, (machine netConfig twoRequests plainCopy).Step b .boot b' ∧ b'.app = some app ∧
      text 0 app.sta.ssid = .ok ssid ∧ text 0 app.sta.password = .ok password ∧
      Restored tornLog Save.ssid [] ssid ∧ Restored tornLog Save.pass [] password := by
  obtain ⟨b, hreach, happ, hlog⟩ := torn_reached
  have hboot := sta_restored hreach happ
  rw [hlog] at hboot
  exact ⟨b, hreach, hlog, hboot⟩

theorem ap_forgotten_torn : ∃ b, Reachable (machine netConfig twoRequests plainCopy) b ∧
    ∃ b' app, (machine netConfig twoRequests plainCopy).Step b .boot b' ∧ b'.app = some app ∧
      ApBlank app.ap := by
  obtain ⟨b, hreach, happ, hlog⟩ := torn_reached
  obtain ⟨b', app, hstep, happ', -, -, hblank⟩ := ap_forgotten hreach happ
  refine ⟨b, hreach, b', app, hstep, happ', hblank ?_⟩
  rw [hlog]
  exact ⟨_, List.mem_cons_of_mem _ List.mem_cons_self, rfl⟩

end Samples

end WirelessGateway.NvsConfig
