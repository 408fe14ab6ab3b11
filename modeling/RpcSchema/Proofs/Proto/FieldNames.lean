/-
  RpcSchema.Proofs.Proto.FieldNames
  ─────────────────────────────────
  **WHEN THE FIELDS OF A REQUEST OR RESPONSE SHARE A NAME.**

  The name of a field comes from the source, from its position, or it is
  the fixed name of a trailing error.  Names from the source differ, and so
  do names from positions, but nothing keeps a name from the source apart
  from the other two: `Field2` may be the name of the first parameter where
  the second one has none, and `Error` that of a result before the error.
  These are the only ways in which two fields come to share a name, and a
  block writes the names as they are.

  Main statements: `nodup_paramLabels_iff`, `nodup_resultLabels_iff` and
  `field_names_distinct_iff`.
-/
import RpcSchema.Proofs.Conversion.Methods
import RpcSchema.Proto.Layout

namespace RpcSchema

/-! ## §1. Names from the source and names from positions. -/

/-- Different positions make different names. -/
theorem numberedField_injective : Function.Injective numberedField := by
  intro i j h
  have hrepr : Nat.repr (i + 1) = Nat.repr (j + 1) := (String.append_right_inj "Field").1 h
  have hdigits := congrArg (fun s : String => Nat.ofDigitChars 10 s.toList 0) hrepr
  simp only [Nat.toList_repr, Nat.ofDigitChars_ten_toDigits] at hdigits
  omega

/-- A numbered field is not called like the error. -/
theorem numberedField_ne_error (i : Nat) : numberedField i ≠ "Error" := by
  intro h
  have hchars := congrArg String.toList h
  unfold numberedField at hchars
  rw [String.toList_append] at hchars
  cases (List.cons.inj hchars).1

/-- None of the variables is called like one without a name is numbered. -/
def Unnumbered (vars : List Var) : Prop :=
  ∀ (i j : Nat) (v w : Var), vars[i]? = some v → v.sourceName? = none → vars[j]? = some w →
    w.sourceName? ≠ some (numberedField i)

/-- Variables with names are told apart by them. -/
theorem eq_of_sourceName {vars : List Var} (h : (vars.filterMap Var.sourceName?).Nodup)
    {i j : Nat} {v w : Var} {name : String} (hv : vars[i]? = some v) (hw : vars[j]? = some w)
    (hvn : v.sourceName? = some name) (hwn : w.sourceName? = some name) : i = j := by
  have hpair := List.pairwise_iff_getElem.1 (List.pairwise_filterMap.1 h)
  obtain ⟨hi, rfl⟩ := List.getElem?_eq_some_iff.1 hv
  obtain ⟨hj, rfl⟩ := List.getElem?_eq_some_iff.1 hw
  by_contra hne
  rcases Nat.lt_or_gt_of_ne hne with hlt | hlt
  · exact hpair i j hi hj hlt name hvn name hwn rfl
  · exact hpair j i hj hi hlt name hwn name hvn rfl

/-- The names of the fields of some parameters. -/
def paramLabels (vars : List Var) : List String :=
  vars.zipIdx.map fun x => paramLabel x.1 x.2

/-- Each parameter makes the name at its place. -/
theorem getElem?_paramLabels (vars : List Var) (i : Nat) :
    (paramLabels vars)[i]? = vars[i]?.map (paramLabel · i) := by
  unfold paramLabels
  rw [List.getElem?_map, List.getElem?_zipIdx, Option.map_map]
  simp [Function.comp_def]

/-- **Fields share a name exactly if one is called like another one is numbered.** -/
theorem nodup_paramLabels_iff {vars : List Var} (h : (vars.filterMap Var.sourceName?).Nodup) :
    (paramLabels vars).Nodup ↔ Unnumbered vars := by
  rw [List.nodup_iff_getElem?_ne_getElem?]
  constructor
  · intro hdistinct i j v w hv hblank hw hname
    have hi : (paramLabels vars)[i]? = some (numberedField i) := by
      rw [getElem?_paramLabels, hv, Option.map_some, paramLabel, hblank, Option.getD_none]
    have hj : (paramLabels vars)[j]? = some (numberedField i) := by
      rw [getElem?_paramLabels, hw, Option.map_some, paramLabel, hname, Option.getD_some]
    have hne : i ≠ j := by
      rintro rfl
      obtain rfl := Option.some.inj (hv.symm.trans hw)
      rw [hblank] at hname
      cases hname
    rcases Nat.lt_or_gt_of_ne hne with hlt | hlt
    · exact hdistinct i j hlt (List.getElem?_eq_some_iff.1 hj).1 (hi.trans hj.symm)
    · exact hdistinct j i hlt (List.getElem?_eq_some_iff.1 hi).1 (hj.trans hi.symm)
  · intro hfree i j hlt hj heq
    have hlen : (paramLabels vars).length = vars.length := by simp [paramLabels]
    rw [hlen] at hj
    obtain ⟨v, hv⟩ : ∃ v, vars[i]? = some v := ⟨_, List.getElem?_eq_getElem (Nat.lt_trans hlt hj)⟩
    obtain ⟨w, hw⟩ : ∃ w, vars[j]? = some w := ⟨_, List.getElem?_eq_getElem hj⟩
    rw [getElem?_paramLabels, getElem?_paramLabels, hv, hw, Option.map_some, Option.map_some,
      Option.some.injEq] at heq
    unfold paramLabel at heq
    -- by where the two names come from
    cases hvn : v.sourceName? with
    | none =>
      cases hwn : w.sourceName? with
      | none =>
        rw [hvn, hwn] at heq
        exact absurd (numberedField_injective heq) (Nat.ne_of_lt hlt)
      | some name =>
        rw [hvn, hwn] at heq
        exact hfree i j v w hv hvn hw (hwn.trans (congrArg some heq.symm))
    | some name =>
      cases hwn : w.sourceName? with
      | none =>
        rw [hvn, hwn] at heq
        exact hfree j i w v hw hwn hv (hvn.trans (congrArg some heq))
      | some name' =>
        rw [hvn, hwn] at heq
        obtain rfl : name = name' := heq
        exact absurd (eq_of_sourceName h hv hw hvn hwn) (Nat.ne_of_lt hlt)

/-! ## §2. The name of a trailing error. -/

/-- The names of the fields of some results. -/
def resultLabels (vars : List Var) : List String :=
  vars.zipIdx.map fun x => resultLabel vars.length x.1 x.2

/-- The last of the results is the builtin `error`. -/
def EndsInError (vars : List Var) : Prop :=
  ∃ v, vars.getLast? = some v ∧ v.type = .error

variable {vars : List Var}

/-- Before the end results are named like parameters. -/
theorem resultLabels_append_singleton (front : List Var) (last : Var) :
    resultLabels (front ++ [last]) = paramLabels front ++
      [if last.type = .error then "Error" else paramLabel last front.length] := by
  unfold resultLabels paramLabels
  rw [List.zipIdx_append, List.map_append]
  congr 1
  · -- the results in front of the last one are not tested for the error
    refine List.map_congr_left fun x hx => ?_
    have hlt : x.2 < front.length := by
      have := List.snd_lt_of_mem_zipIdx hx
      omega
    unfold resultLabel
    rw [if_neg]
    rintro ⟨hend, _⟩
    rw [List.length_append, List.length_singleton] at hend
    omega
  · simp [resultLabel]

/-- A trailing error is called so, the other results are labelled like parameters. -/
theorem resultLabels_of_endsInError (h : EndsInError vars) :
    resultLabels vars = paramLabels vars.dropLast ++ ["Error"] := by
  obtain ⟨last, hlast, herror⟩ := h
  obtain ⟨front, rfl⟩ := List.getLast?_eq_some_iff.1 hlast
  rw [resultLabels_append_singleton, if_pos herror, List.dropLast_concat]

/-- Without one all results are labelled like parameters. -/
theorem resultLabels_of_not_endsInError (h : ¬ EndsInError vars) :
    resultLabels vars = paramLabels vars := by
  rcases List.eq_nil_or_concat vars with rfl | ⟨front, last, rfl⟩
  · rfl
  · have herror : last.type ≠ .error := fun he => h ⟨last, by simp, he⟩
    rw [List.concat_eq_append, resultLabels_append_singleton, if_neg herror]
    unfold paramLabels
    simp [List.zipIdx_append]

/-- A field is called `Error` only if its parameter is. -/
theorem error_mem_paramLabels_iff :
    "Error" ∈ paramLabels vars ↔ ∃ v ∈ vars, v.sourceName? = some "Error" := by
  unfold paramLabels
  constructor
  · intro hmem
    obtain ⟨⟨v, i⟩, hx, hlabel⟩ := List.mem_map.1 hmem
    refine ⟨v, (List.mem_zipIdx' hx).2 ▸ List.getElem_mem _, ?_⟩
    unfold paramLabel at hlabel
    -- a variable without a name is numbered, and no number is the name of the error
    cases hv : v.sourceName? with
    | none =>
      rw [hv] at hlabel
      exact absurd hlabel (numberedField_ne_error i)
    | some name =>
      rw [hv] at hlabel
      exact congrArg some hlabel
  · rintro ⟨v, hv, hname⟩
    obtain ⟨i, hi, rfl⟩ := List.getElem_of_mem hv
    refine List.mem_map.2 ⟨(vars[i], i), List.mk_mem_zipIdx_iff_getElem?.2 (by simp [hi]), ?_⟩
    simp [paramLabel, hname]

/-- **Fields of results share a name exactly if one is called like another one is numbered, or like
the error behind it.** -/
theorem nodup_resultLabels_iff (h : (vars.filterMap Var.sourceName?).Nodup) :
    (resultLabels vars).Nodup ↔
      (EndsInError vars → Unnumbered vars.dropLast ∧
        ∀ v ∈ vars.dropLast, v.sourceName? ≠ some "Error") ∧
      (¬ EndsInError vars → Unnumbered vars) := by
  have hfront : (vars.dropLast.filterMap Var.sourceName?).Nodup :=
    h.sublist ((List.dropLast_sublist vars).filterMap _)
  -- with a trailing error the names in front have to differ from its name too
  by_cases hend : EndsInError vars
  · rw [resultLabels_of_endsInError hend, List.nodup_append, nodup_paramLabels_iff hfront]
    have herror : (∀ a ∈ paramLabels vars.dropLast, ∀ b ∈ ["Error"], a ≠ b) ↔
        ∀ v ∈ vars.dropLast, v.sourceName? ≠ some "Error" := by
      rw [← not_iff_not]
      simp only [List.mem_singleton, forall_eq, ne_eq, not_forall, not_not, exists_prop,
        exists_eq_right]
      exact error_mem_paramLabels_iff
    rw [herror]
    simp [hend]
  · rw [resultLabels_of_not_endsInError hend, nodup_paramLabels_iff h]
    simp [hend]

/-! ## §3. The messages of a method. -/

namespace Source

variable {R : NativeId → EntryId → Prop} {p : Pool} {name : String} {label : Var → Nat → String}
  {id : EntryId}

/-- The fields of a message have the labels of its variables. -/
theorem MessageOf.fieldNames_eq (h : MessageOf R p name label vars id) :
    p.fieldNames id = vars.zipIdx.map fun x => label x.1 x.2 := by
  obtain ⟨fields, hid, hfields⟩ := h
  unfold Pool.fieldNames
  rw [hid]
  exact (forall₂_map_eq (fun _ _ h => h.1.symm) hfields).symm

/-- The block of a message writes the names of its fields as they are. -/
theorem MessageOf.exists_block (h : MessageOf R p name label vars id) :
    ∃ fields, p.entryBlock? id = some ⟨name, .message fields⟩ ∧
      fields.map (·.name) = p.fieldNames id := by
  obtain ⟨fields, hid, _⟩ := h
  refine ⟨fields.map p.messageField, ?_, ?_⟩
  · unfold Pool.entryBlock?
    rw [hid]
    rfl
  · unfold Pool.fieldNames
    rw [hid, List.map_map]
    rfl

end Source

/-- **When the fields of a request or response share a name.**

For every package that a manifest describes and every method that is extracted, whatever was
extracted or called before: if the parameters that have a name differ in it, and the results do,
then the fields of the request have different names exactly if no parameter that it carries is called
like one without a name is numbered; for the response a trailing error is left out of this, and no
other result may be called `Error`.  The blocks have the same names. -/
theorem field_names_distinct_iff {m : Manifest} {pkg : Package} (h : m.build = .ok pkg)
    {fieldless : List String} {calls : List Call} {earlier : List Method} {rs : List RpcMethod}
    {p q : Pool} {method : Method} {r : RpcMethod}
    (hearlier : (earlier.mapM (pkg.source fieldless).extractMethod).Yields
      ((pkg.source fieldless).after Pool.start calls) rs p)
    (hrun : ((pkg.source fieldless).extractMethod method).Yields p r q)
    (hparams : (method.signature.params.filterMap Var.sourceName?).Nodup)
    (hresults : (method.signature.results.filterMap Var.sourceName?).Nodup) :
    ((q.fieldNames r.request).Nodup ↔ Unnumbered method.signature.requestParams) ∧
      ((q.fieldNames r.response).Nodup ↔
        (EndsInError method.signature.results → Unnumbered method.signature.results.dropLast ∧
          ∀ v ∈ method.signature.results.dropLast, v.sourceName? ≠ some "Error") ∧
        (¬ EndsInError method.signature.results → Unnumbered method.signature.results)) ∧
      ∃ request response, q.entryBlock? r.request = some ⟨method.name ++ "Request", .message request⟩ ∧
        request.map (·.name) = q.fieldNames r.request ∧
        q.entryBlock? r.response = some ⟨method.name ++ "Response", .message response⟩ ∧
        response.map (·.name) = q.fieldNames r.response := by
  have hlasting := (pkg.source fieldless).lasting_grounded
  have hp : Source.AtRest (pkg.source fieldless).Grounded p :=
    (Conversion.Keeps.mapM hlasting.keeps_extractMethod earlier).of_yields hearlier
      (hlasting.after calls (Source.atRest_start Source.grounded_start))
  obtain ⟨_, _, hextracted, _⟩ := Source.extracted_of_extractMethod hp hrun
  have hdescribes := hextracted.describes (Manifest.isError_iff h)
  obtain ⟨request, hrequest, hrequestNames⟩ := hdescribes.request.exists_block
  obtain ⟨response, hresponse, hresponseNames⟩ := hdescribes.response.exists_block
  refine ⟨?_, ?_, request, response, hrequest, hrequestNames, hresponse, hresponseNames⟩
  · -- a variadic parameter is not among those of the request
    have hcarried : (method.signature.requestParams.filterMap Var.sourceName?).Nodup := by
      unfold Signature.requestParams
      split
      · exact hparams.sublist ((List.dropLast_sublist _).filterMap _)
      · exact hparams
    rw [hdescribes.request.fieldNames_eq]
    exact nodup_paramLabels_iff hcarried
  · rw [hdescribes.response.fieldNames_eq]
    exact nodup_resultLabels_iff hresults

/-- One method whose parameter and result are called like the fields next to them. -/
def copierManifest : Manifest where
  path := "example.com/copier"
  name := none
  types :=
    [⟨"Copier", .struct [],
      [⟨"Copy", [⟨some "Field2", "string"⟩, ⟨some "_", "string"⟩],
        [⟨some "Error", "string"⟩, ⟨some "err", "error"⟩]⟩]⟩]
  constants := []

/-- **Two fields of one name**: the names in the source differ, and those of the fields do not. -/
theorem copier_repeats_fields :
    ∃ pkg method r q, copierManifest.build = .ok pkg ∧
      pkg.exportedMethods (.entry 21) = [method] ∧
      ((pkg.source []).extractMethod method).Yields Pool.start r q ∧
      method.signature.params.filterMap Var.sourceName? = ["Field2"] ∧
      method.signature.results.filterMap Var.sourceName? = ["Error", "err"] ∧
      q.fieldNames r.request = ["Field2", "Field2"] ∧
      q.fieldNames r.response = ["Error", "Error"] := by
  have hbuild : copierManifest.build.toOption.any (fun pkg =>
      (pkg.exportedMethods (.entry 21)).head?.any fun method =>
        let extracted := ((pkg.source []).extractMethod method).outcome Pool.start
        decide (pkg.exportedMethods (.entry 21) = [method] ∧
          method.signature.params.filterMap Var.sourceName? = ["Field2"] ∧
          method.signature.results.filterMap Var.sourceName? = ["Error", "err"]) &&
        extracted.1.toOption.any fun r => decide
          (extracted.2.fieldNames r.request = ["Field2", "Field2"] ∧
            extracted.2.fieldNames r.response = ["Error", "Error"])) = true := by
    decide +kernel
  obtain ⟨pkg, hpkg, hmethods⟩ := (Option.any_eq_true _ _).1 hbuild
  obtain ⟨method, _, hboth⟩ := (Option.any_eq_true _ _).1 hmethods
  obtain ⟨hsource, hextracts⟩ := Bool.and_eq_true_iff.1 hboth
  obtain ⟨r, hr, hfields⟩ := (Option.any_eq_true _ _).1 hextracts
  -- the names in the source differ, and those of the fields do not
  obtain ⟨honly, hparams, hresults⟩ := of_decide_eq_true hsource
  obtain ⟨hrequest, hresponse⟩ := of_decide_eq_true hfields
  exact ⟨pkg, method, r, _, eq_ok_of_toOption hpkg, honly,
    Conversion.yields_iff_toOption.2 ⟨hr, rfl⟩, hparams, hresults, hrequest, hresponse⟩

/-- The second method of the desk, extracted after the first one; the fields of both its messages
differ. -/
theorem field_names_distinct_iff_desk :
    ∃ pkg first second rs r p q, deskManifest.build = .ok pkg ∧
      ([first].mapM (pkg.source []).extractMethod).Yields
        ((pkg.source []).after Pool.start [.convert (.entry 22)]) rs p ∧
      ((pkg.source []).extractMethod second).Yields p r q ∧
      (second.signature.params.filterMap Var.sourceName?).Nodup ∧
      (second.signature.results.filterMap Var.sourceName?).Nodup ∧
      q.fieldNames r.response = ["err", "count"] ∧
      Unnumbered second.signature.requestParams ∧ Unnumbered second.signature.results := by
  have hbuild : deskManifest.build.toOption.any (fun pkg =>
      let methods := pkg.exportedMethods (.entry 23)
      methods[0]?.any fun first => methods[2]?.any fun second =>
        let before := ([first].mapM (pkg.source []).extractMethod).outcome
          ((pkg.source []).after Pool.start [.convert (.entry 22)])
        let extracted := ((pkg.source []).extractMethod second).outcome before.2
        decide ((second.signature.params.filterMap Var.sourceName?).Nodup ∧
          (second.signature.results.filterMap Var.sourceName?).Nodup ∧
          second.signature.results.getLast?.all (fun v => v.type ≠ .error)) &&
        before.1.toOption.isSome && extracted.1.toOption.any fun r => decide
          ((extracted.2.fieldNames r.request).Nodup ∧
            extracted.2.fieldNames r.response = ["err", "count"])) = true := by
    decide +kernel
  obtain ⟨pkg, hpkg, hmethods⟩ := (Option.any_eq_true _ _).1 hbuild
  have hpkg := eq_ok_of_toOption hpkg
  obtain ⟨first, _, hothers⟩ := (Option.any_eq_true _ _).1 hmethods
  obtain ⟨second, _, hboth⟩ := (Option.any_eq_true _ _).1 hothers
  obtain ⟨hfirst, hextracts⟩ := Bool.and_eq_true_iff.1 hboth
  obtain ⟨hsource, hbefore⟩ := Bool.and_eq_true_iff.1 hfirst
  obtain ⟨rs, hrs⟩ := Option.isSome_iff_exists.1 hbefore
  obtain ⟨r, hr, hfields⟩ := (Option.any_eq_true _ _).1 hextracts
  obtain ⟨hparams, hresults, hlast⟩ := of_decide_eq_true hsource
  obtain ⟨hrequest, hresponse⟩ := of_decide_eq_true hfields
  have hearlier := Conversion.yields_iff_toOption.2 ⟨hrs, rfl⟩
  have hrun := Conversion.yields_iff_toOption.2 ⟨hr, rfl⟩
  obtain ⟨hparamsIff, hresultsIff, _⟩ :=
    field_names_distinct_iff hpkg hearlier hrun hparams hresults
  -- the last result of the second method is a count, not the error
  have hend : ¬ EndsInError second.signature.results := by
    rintro ⟨v, hv, herror⟩
    rw [hv] at hlast
    exact of_decide_eq_true hlast herror
  have hdistinct := hresultsIff.1 (by rw [hresponse]; decide)
  exact ⟨pkg, first, second, rs, r, _, _, hpkg, hearlier, hrun, hparams, hresults, hresponse,
    hparamsIff.1 hrequest, hdistinct.2 hend⟩

end RpcSchema
