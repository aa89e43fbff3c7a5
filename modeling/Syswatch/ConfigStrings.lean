import Syswatch.ConfigText

/-! # What becomes of a string in the file

Every string is copied with `strncpy` to all but the last byte of its array, and
no setter looks at its length: a longer one is cut. -/

namespace Syswatch.ConfigStrings
open Lib.CText Lib.Machine ConfigText

def textOf (f : TextField) : Setting → Option Bytes
  | .text g s => if g = f then some s else none
  | _ => none

/-- The values that the lines of a text assign to a key, trimmed and unquoted. -/
def assigned (f : TextField) (text : Bytes) : List Bytes :=
  (readLines .none (textLines [] text)).1.filterMap (textOf f)

/-! ## A value has no NUL -/

theorem cutComment_start (inQuotes atWord : Bool) (s : Bytes) : cutComment inQuotes atWord s <+: s := by
  induction s generalizing inQuotes atWord with
  | nil => exact List.prefix_rfl
  | cons c s ih =>
    rw [cutComment]
    split
    · exact (List.prefix_cons_inj c).mpr (ih _ _)
    · split
      · exact List.nil_prefix
      · exact (List.prefix_cons_inj c).mpr (ih _ _)

theorem ltrim_sublist (s : Bytes) : (ltrim s).Sublist s := List.dropWhile_sublist _

theorem rtrim_sublist (s : Bytes) : (rtrim s).Sublist s := by
  have hstart : rtrim s <+: s := List.rdropWhile_prefix _ _
  exact hstart.sublist

theorem unquote_sublist (s : Bytes) : (unquote s).Sublist s := by
  unfold unquote
  split
  · exact (List.dropLast_sublist _).trans (List.tail_sublist _)
  · exact List.Sublist.refl _

theorem cursor_sublist (text : Bytes) (k : Nat) :
    (rtrim (ltrim (stripInlineComment (text.drop k)))).Sublist text :=
  (rtrim_sublist _).trans ((ltrim_sublist _).trans ((rtrim_sublist _).trans
    ((cutComment_start _ _ _).sublist.trans (List.drop_sublist _ _))))

/-- A value is a part of its line. -/
theorem value_sublist {lineNo : Nat} {line : Bytes} {l : ConfigLine}
    (h : parseLine lineNo line = .ok (some l)) : l.value.Sublist (cstr line) := by
  unfold parseLine at h
  dsimp only at h
  split_ifs at h
  · cases Except.ok.inj h
  · cases Except.ok.inj h
  · have hvalue := congrArg ConfigLine.value (Option.some.inj (Except.ok.inj h))
    dsimp only at hvalue
    rw [← hvalue]
    exact (unquote_sublist _).trans ((rtrim_sublist _).trans ((ltrim_sublist _).trans
      ((List.tail_sublist _).trans ((List.dropWhile_sublist _).trans (cursor_sublist _ _)))))

theorem text_noNul {sec : ConfigSection} {lines : List Bytes} {f : TextField} {s : Bytes}
    (hs : .text f s ∈ (readLines sec lines).1) : (0 : UInt8) ∉ s := by
  obtain ⟨line, -, l, target, hline, hset⟩ := mem_readLines hs
  obtain ⟨g, -, hg⟩ := Option.bind_eq_some_iff.mp hset
  have hvalue : l.value = s := by
    cases g with
    | text g =>
      cases hg
      rfl
    | word g =>
      simp only [Field.read, Option.ite_none_right_eq_some] at hg
      cases hg.2
    | int g =>
      obtain ⟨n, -, hn⟩ := Option.map_eq_some_iff.mp hg
      cases hn
    | metric g =>
      obtain ⟨n, -, hn⟩ := Option.map_eq_some_iff.mp hg
      cases hn
    | load =>
      obtain ⟨n, -, hn⟩ := Option.map_eq_some_iff.mp hg
      cases hn
  rw [← hvalue]
  exact fun h0 => zero_notMem_cstr line ((value_sublist hline).subset h0)

/-! ## What is stored -/

/-- What the copy leaves of a value. -/
def stored (f : TextField) (value : Bytes) : Bytes := value.take (f.size - 1)

theorem text_apply {cfg : ConfigMemory} (hcfg : Terminated cfg) {s : Setting}
    (hs : ∀ f t, s = .text f t → (0 : UInt8) ∉ t) (f : TextField) :
    (f.get (s.apply cfg)).text = ((textOf f s).map (stored f)).getD (f.get cfg).text := by
  cases s with
  | word g w => cases g <;> cases f <;> rfl
  | int g n => cases g <;> cases f <;> rfl
  | metric m flag => cases m <;> cases f <;> rfl
  | load flag => rfl
  | text g t =>
    by_cases hg : f = g
    · subst hg
      rw [Setting.apply, TextField.get_set, Buffer.text_strncpy (hcfg.text f),
        cstr_of_noNul (hs f t rfl), textOf, if_pos rfl]
      rfl
    · rw [Setting.apply, TextField.get_set_ne cfg hg, textOf, if_neg (Ne.symm hg)]
      rfl

/-- **What a string field holds.** After a text that is accepted, the first bytes of
the last value it assigns, one fewer than the array has; or what it held before. -/
theorem string_stored {files : Files} {path text : Bytes} {cfg cfg' : ConfigMemory}
    (hcfg : Terminated cfg) (hread : files.read path = some text)
    (hlines : ∀ l ∈ textLines [] text, lineLength l ≤ 1022)
    (hload : loadConfigFile files path cfg = (0, none, cfg')) (f : TextField) :
    (f.get cfg').text =
      (((assigned f text).getLast?).map (stored f)).getD (f.get cfg).text := by
  have hfgets : fgetsAll 1024 [] text = textLines [] text :=
    fgetsAll_textLines (by simp) fun l hl => by have := hlines l hl; omega
  have heq := (load_eq hread cfg).1
  rw [hload, settingsOf, hfgets] at heq
  have hwrite := @foldl_last_write _ _ _ Setting.apply Terminated (fun cfg => (f.get cfg).text)
    (fun s => (textOf f s).map (stored f)) (readLines .none (textLines [] text)).1
    (fun s _ _ hcfg => hcfg.apply s)
    (fun s hs _ hcfg => text_apply hcfg (fun g t hst => text_noNul (hst ▸ hs)) f) cfg hcfg
  dsimp only at hwrite heq
  rw [heq, applyTo, hwrite, assigned, ← List.getLast?_map, List.map_filterMap]

def urlFile (url : Bytes) : Bytes := ascii "output:\n  url: " ++ url ++ ascii " # receiver\n"

theorem string_stored_example :
    (ConfigMemory.initDefaultConfig.outputUrl.strncpy (ascii "http://h") 255).text =
      (((assigned .outputUrl (urlFile (ascii "'x'") ++ urlFile (ascii "\"http://h\""))).getLast?).map
        (stored .outputUrl)).getD [] :=
  @string_stored ⟨urlFile (ascii "'x'") ++ urlFile (ascii "\"http://h\""), fun _ => none⟩ (ascii "-") _
    .initDefaultConfig
    { ConfigMemory.initDefaultConfig with
      outputUrl := ConfigMemory.initDefaultConfig.outputUrl.strncpy (ascii "http://h") 255 }
    terminated_initDefaultConfig rfl (by decide +kernel) (by decide +kernel) .outputUrl

/-- A URL of 300 bytes is accepted, and the last 45 of them are gone. -/
theorem string_cut :
    ¬∀ (files : Files) (path text : Bytes) (cfg cfg' : ConfigMemory) (f : TextField),
      Terminated cfg → files.read path = some text →
      (∀ l ∈ textLines [] text, lineLength l ≤ 1022) →
      loadConfigFile files path cfg = (0, none, cfg') →
      (f.get cfg').text = ((assigned f text).getLast?).getD (f.get cfg).text := by
  intro h
  have hurl := h ⟨urlFile (List.replicate 300 97), fun _ => none⟩ (ascii "-") _ .initDefaultConfig
    { ConfigMemory.initDefaultConfig with
      outputUrl := Buffer.ofText 256 (List.replicate 255 97) } .outputUrl
    terminated_initDefaultConfig rfl (by decide +kernel) (by decide +kernel)
  revert hurl
  decide +kernel

end Syswatch.ConfigStrings
