import LosslessTree.Settings

/-!
Settings read and settings changed. A text that is an object reads as the defaults changed by it,
unless it repeats a member of a known name or one inside the layout. A change in place happens as a
whole or not at all, and the limit is never zero behind it.
-/

namespace LosslessTree

namespace Json

variable {key : String} {members : List (Option String × Json)}

theorem member?_object (key : String) (members : List (Option String × Json)) :
    (object members).member? key = (Settings.valuesOf key members).getLast? := by
  rw [member?, ← List.head?_filter, List.filter_reverse, List.head?_reverse, Settings.valuesOf,
    List.getLast?_map]

theorem lastMembers_of_nodup (hnodup : (members.map (·.1)).Nodup) :
    lastMembers members = members := by
  induction members with
  | nil => rfl
  | cons member rest ih =>
      obtain ⟨hfresh, hrest⟩ := List.nodup_cons.mp hnodup
      have hnone : rest.any (·.1 == member.1) = false := by
        rw [List.any_eq_false]
        intro other hother heq
        exact hfresh (List.mem_map.mpr ⟨other, hother, beq_iff_eq.mp heq⟩)
      rw [lastMembers, hnone, ih hrest]
      rfl

end Json

namespace Settings

/-! ## Readings and changes agree -/

section

variable {α : Type} {read : Json → Option α} {unset : α}

theorem readOnce_eq {values : List Json} (honce : values.length ≤ 1) (fault : SettingsFault) :
    readOnce read unset values = (updated read fault unset values.getLast?).toOption := by
  match values with
  | [] => rfl
  | [value] =>
      rw [readOnce, List.getLast?_singleton, updated]
      cases read value <;> rfl
  | _ :: _ :: _ => simp at honce

theorem updated_congr {other : Json → Option α} {value? : Option Json} {fault : SettingsFault}
    (hsame : ∀ value ∈ value?, read value = other value) :
    updated read fault unset value? = updated other fault unset value? := by
  cases value? with
  | none => rfl
  | some value => simp only [updated, hsame value rfl]

theorem updated_inv {value? : Option Json} {fault : SettingsFault} {after : α}
    (hafter : (updated read fault unset value?).toOption = some after) :
    (value? = none → after = unset) ∧ ∀ value ∈ value?, read value = some after := by
  cases value? with
  | none =>
      cases hafter
      exact ⟨fun _ => rfl, fun _ hvalue => by cases hvalue⟩
  | some value =>
      rw [updated] at hafter
      refine ⟨fun hnone => (Option.some_ne_none value hnone).elim, fun other hother => ?_⟩
      obtain rfl := Option.some.inj hother
      cases hread : read value with
      | none =>
          rw [hread] at hafter
          cases hafter
      | some new =>
          rw [hread] at hafter
          cases hafter
          rfl

end

theorem length_valuesOf (key : String) (members : List (Option String × Json)) :
    (valuesOf key members).length = (members.map (·.1)).count (some key) := by
  rw [valuesOf, List.length_map, ← List.countP_eq_length_filter, List.count, List.countP_map]
  rfl

theorem mem_valuesOf {key : String} {members : List (Option String × Json)} {value : Json} :
    value ∈ valuesOf key members ↔ (some key, value) ∈ members := by
  simp [valuesOf]

theorem toOption_update (settings : Settings) (value : Json) :
    (settings.update value).toOption =
      (updated limit? .limitValue settings.backtrackLimit
        (value.member? "backtrackLimit")).toOption.bind fun limit =>
          (updated (layout? ·.merged) .layoutValue settings.layout
            (value.member? "layout")).toOption.bind fun layout =>
              (validate ⟨limit, layout⟩).toOption := by
  unfold update
  cases updated limit? .limitValue settings.backtrackLimit (value.member? "backtrackLimit") with
  | error fault => rfl
  | ok limit =>
      cases updated (layout? ·.merged) .layoutValue settings.layout (value.member? "layout") with
      | error fault => rfl
      | ok layout => rfl

theorem toOption_ofText {text : String} {members : List (Option String × Json)}
    (htext : Json.ofText? text = some (.object members))
    (hkeys : ∀ member ∈ members, member.1.isSome = true) :
    (ofText text).toOption =
      (readOnce limit? default.backtrackLimit (valuesOf "backtrackLimit" members)).bind fun limit =>
        (readOnce layout? default.layout (valuesOf "layout" members)).bind fun layout =>
          (validate ⟨limit, layout⟩).toOption := by
  have hall : members.all (·.1.isSome) = true := List.all_eq_true.mpr hkeys
  rw [ofText, htext, Option.bind_some, ofJson?, if_pos hall]
  cases readOnce limit? default.backtrackLimit (valuesOf "backtrackLimit" members) with
  | none => rfl
  | some limit =>
      cases readOnce layout? default.layout (valuesOf "layout" members) with
      | none => rfl
      | some layout => rfl

theorem ofText_eq_update {text : String} {members : List (Option String × Json)}
    (htext : Json.ofText? text = some (.object members))
    (hkeys : ∀ member ∈ members, member.1.isSome = true)
    (hlimit : (members.map (·.1)).count (some "backtrackLimit") ≤ 1)
    (hlayout : (members.map (·.1)).count (some "layout") ≤ 1)
    (hinside : ∀ inner, (some "layout", Json.object inner) ∈ members → (inner.map (·.1)).Nodup) :
    (ofText text).toOption = (default.update (.object members)).toOption := by
  rw [← length_valuesOf] at hlimit hlayout
  have hmerged : ∀ value ∈ (valuesOf "layout" members).getLast?,
      layout? value = layout? value.merged := by
    intro value hvalue
    cases value with
    | object inner =>
        have hmember := mem_valuesOf.mp (List.mem_of_getLast? hvalue)
        rw [Json.merged, Json.lastMembers_of_nodup (hinside inner hmember)]
    | _ => rfl
  rw [toOption_ofText htext hkeys, toOption_update, Json.member?_object, Json.member?_object,
    readOnce_eq hlimit .limitValue, readOnce_eq hlayout .layoutValue, updated_congr hmerged]

/-! ## Changes in place -/

/-- The settings that are in order, or those of before with the fault. -/
def committed (settings : Settings) :
    Except SettingsFault Settings → EStateM.Result SettingsFault Settings Unit
  | .ok after => .ok () after
  | .error fault => .error fault settings

theorem committed_eq_ok {settings after : Settings} {outcome : Except SettingsFault Settings}
    (hafter : committed settings outcome = .ok () after) : outcome = .ok after := by
  cases outcome <;> cases hafter
  rfl

theorem committed_eq_error {settings after : Settings} {fault : SettingsFault}
    {outcome : Except SettingsFault Settings}
    (hafter : committed settings outcome = .error fault after) :
    outcome = .error fault ∧ after = settings := by
  cases outcome <;> cases hafter
  exact ⟨rfl, rfl⟩

theorem commit_run (copy settings : Settings) :
    (commit copy).run settings = committed settings copy.validate := by
  unfold commit validate
  split <;> rfl

/-- A change in place is the change of the settings, or leaves them as they are. -/
theorem change_run (value : Json) (settings : Settings) :
    (change value).run settings = committed settings (settings.update value) := by
  unfold change update
  cases value.member? "backtrackLimit" with
  | none =>
      cases value.member? "layout" with
      | none => exact commit_run settings settings
      | some layout =>
          cases hlayout : layout? layout.merged with
          | none =>
              simp only [updated, hlayout]
              rfl
          | some mode =>
              simp only [updated, hlayout]
              exact commit_run _ settings
  | some limit =>
      cases hlimit : limit? limit with
      | none =>
          simp only [updated, hlimit]
          rfl
      | some count =>
          cases value.member? "layout" with
          | none =>
              simp only [updated, hlimit]
              exact commit_run _ settings
          | some layout =>
              cases hlayout : layout? layout.merged with
              | none =>
                  simp only [updated, hlimit, hlayout]
                  rfl
              | some mode =>
                  simp only [updated, hlimit, hlayout]
                  exact commit_run _ settings

theorem eq_of_validate {settings after : Settings}
    (hafter : settings.validate.toOption = some after) :
    after = settings ∧ 1 ≤ after.backtrackLimit := by
  unfold validate at hafter
  split at hafter
  · cases hafter
  · next hlimit =>
      cases hafter
      exact ⟨rfl, Nat.one_le_iff_ne_zero.mpr hlimit⟩

theorem update_inv {settings after : Settings} {value : Json}
    (hafter : settings.update value = .ok after) :
    (updated limit? .limitValue settings.backtrackLimit
        (value.member? "backtrackLimit")).toOption = some after.backtrackLimit ∧
      (updated (layout? ·.merged) .layoutValue settings.layout
        (value.member? "layout")).toOption = some after.layout ∧
      1 ≤ after.backtrackLimit := by
  have hparts := toOption_update settings value
  rw [hafter] at hparts
  obtain ⟨limit, hlimit, hparts⟩ := Option.bind_eq_some_iff.mp hparts.symm
  obtain ⟨layout, hlayout, hvalid⟩ := Option.bind_eq_some_iff.mp hparts
  obtain ⟨rfl, hone⟩ := eq_of_validate hvalid
  exact ⟨hlimit, hlayout, hone⟩

theorem one_le_of_ofText {text : String} {after : Settings} (hafter : ofText text = .ok after) :
    1 ≤ after.backtrackLimit := by
  unfold ofText at hafter
  split at hafter
  · exact (eq_of_validate (congrArg Except.toOption hafter)).2
  · cases hafter

/-! ## One request after another -/

theorem perform_run (request : Request) (settings : Settings) :
    request.perform.run settings = committed settings (request.outcome settings) := by
  cases request with
  | read text =>
      simp only [Request.perform, Request.outcome]
      cases ofText text <;> rfl
  | update value => exact change_run value settings

theorem one_le_of_outcome {request : Request} {settings after : Settings}
    (hafter : request.outcome settings = .ok after) : 1 ≤ after.backtrackLimit := by
  cases request with
  | read text => exact one_le_of_ofText hafter
  | update value => exact (update_inv hafter).2.2

theorem one_le_serve (requests : List Request) {settings : Settings}
    (hsettings : 1 ≤ settings.backtrackLimit) :
    1 ≤ (serve settings requests).backtrackLimit := by
  induction requests generalizing settings with
  | nil => exact hsettings
  | cons request rest ih =>
      rw [serve, perform_run]
      cases houtcome : request.outcome settings with
      | ok after => exact ih (one_le_of_outcome houtcome)
      | error fault => exact ih hsettings

/-- Readings agree with changes of the defaults, changes happen as a whole or not at all and to what
they name only, and the limit is never zero. -/
theorem read_and_change :
    (∀ text members, Json.ofText? text = some (.object members) →
      (∀ member ∈ members, member.1.isSome = true) →
      (members.map (·.1)).count (some "backtrackLimit") ≤ 1 →
      (members.map (·.1)).count (some "layout") ≤ 1 →
      (∀ inner, (some "layout", Json.object inner) ∈ members → (inner.map (·.1)).Nodup) →
      (ofText text).toOption = (default.update (.object members)).toOption) ∧
    (∀ settings value fault after, (change value).run settings = .error fault after →
      settings.update value = .error fault ∧ after = settings) ∧
    (∀ settings value after, (change value).run settings = .ok () after →
      settings.update value = .ok after ∧
      (value.member? "backtrackLimit" = none → after.backtrackLimit = settings.backtrackLimit) ∧
      (∀ limit ∈ value.member? "backtrackLimit", limit? limit = some after.backtrackLimit) ∧
      (value.member? "layout" = none → after.layout = settings.layout) ∧
      ∀ layout ∈ value.member? "layout", layout? layout.merged = some after.layout) ∧
    ∀ requests, 1 ≤ (serve default requests).backtrackLimit := by
  refine ⟨fun text members => ofText_eq_update, ?_, ?_, ?_⟩
  · intro settings value fault after hrun
    rw [change_run] at hrun
    exact committed_eq_error hrun
  · intro settings value after hrun
    rw [change_run] at hrun
    have hupdate := committed_eq_ok hrun
    obtain ⟨hlimit, hlayout, -⟩ := update_inv hupdate
    obtain ⟨hkept, hlimit⟩ := updated_inv hlimit
    obtain ⟨hstays, hlayout⟩ := updated_inv hlayout
    exact ⟨hupdate, hkept, hlimit, hstays, hlayout⟩
  · exact fun requests => one_le_serve requests (by decide)

/-- A layout in the form of an object, a limit of zero behind a layout that is in order, and a value
that leaves the limit alone. -/
theorem read_and_change_of_layouts :
    (ofText "\x7b\"layout\":\x7b\"none\":null\x7d,\"unknown\":[1e2]\x7d").toOption =
        (default.update (.record [("layout", .record [("none", .null)]),
          ("unknown", .array [.number (.decimal "1e2")])])).toOption ∧
      (∃ after, (change (.record [("layout", .str "none"), ("backtrackLimit", .nat 0)])).run default =
          .error .limitTooSmall after ∧
        default.update (.record [("layout", .str "none"), ("backtrackLimit", .nat 0)]) =
          .error .limitTooSmall ∧ after = default) ∧
      (∃ after, (change (.record [("layout", .str "none")])).run default = .ok () after ∧
        default.update (.record [("layout", .str "none")]) = .ok after ∧
        after.backtrackLimit = default.backtrackLimit ∧
        layout? (Json.str "none").merged = some after.layout) ∧
      1 ≤ (serve default [.read "[0]", .update (.record [("layout", .null)])]).backtrackLimit := by
  obtain ⟨hread, hfails, hsucceeds, hserve⟩ := read_and_change
  have hfailed : (change (.record [("layout", .str "none"), ("backtrackLimit", .nat 0)])).run
      default = .error .limitTooSmall default := by rfl
  have hchanged : (change (.record [("layout", .str "none")])).run default =
      .ok () ⟨32, .none⟩ := by rfl
  obtain ⟨hupdate, hkept, -, -, hlayout⟩ := hsucceeds _ _ _ hchanged
  refine ⟨?_, ⟨_, hfailed, hfails _ _ _ _ hfailed⟩,
    ⟨_, hchanged, hupdate, hkept rfl, hlayout _ rfl⟩, hserve _⟩
  have htext : Json.ofText? "\x7b\"layout\":\x7b\"none\":null\x7d,\"unknown\":[1e2]\x7d" =
      some (.record [("layout", .record [("none", .null)]),
        ("unknown", .array [.number (.decimal "1e2")])]) := by
    simp only [Json.ofText?, String.reduceToList]
    rfl
  refine hread _ _ htext (by simp) (by decide) (by decide) ?_
  intro inner hinner
  obtain rfl : [(some "none", Json.null)] = inner := by simpa [Json.record, eq_comm] using hinner
  decide

/-- A text with a repeated member inside the layout is not read, but as a value it changes the
layout. -/
theorem exists_reading_unlike_change :
    ∃ text members, Json.ofText? text = some (.object members) ∧
      (∀ member ∈ members, member.1.isSome = true) ∧
      (members.map (·.1)).count (some "backtrackLimit") ≤ 1 ∧
      (members.map (·.1)).count (some "layout") ≤ 1 ∧
      ofText text = .error .unreadable ∧
      default.update (.object members) = .ok ⟨32, .none⟩ := by
  have htext : Json.ofText? "\x7b\"layout\":\x7b\"none\":null,\"none\":null\x7d\x7d" =
      some (.record [("layout", .record [("none", .null), ("none", .null)])]) := by
    simp only [Json.ofText?, String.reduceToList]
    rfl
  refine ⟨_, _, htext, by simp, by decide, by decide, ?_, by rfl⟩
  rw [ofText, htext]
  rfl

end Settings

end LosslessTree
