import TaiSkeleton.AccessControl.PathCanon

/-!
# The settings of access control

What the path decisions read of the settings. Regular expressions are kept as their text; how
they match is a parameter, with the paths a text matches whole.
-/

namespace TaiSkeleton.AccessControl

/-- The regular expressions of the standard library: whether a text compiles, whether the pattern
it compiles to matches a whole path, and which characters `\d` matches. -/
structure Regexes where
  compiles : String → Bool
  fullmatch : String → Path → Bool
  isDecimal : Char → Bool

/-- What the path decisions read of `AccessControlSettings`. -/
structure Settings where
  enable : Bool := true
  publicResourceId : String := "public"
  reservedPublicPinPrefixes : List Path := ["/api/auth".toList]
  alwaysPublicPathPrefixes : List Path := ["/api/login".toList]
  authenticatedAlwaysAllowedPaths : List Path := ["/api/auth/me".toList]
  spaShellPublic : Bool := true
  reservedOperationalSupplement : List Path := ["/openapi.json".toList]
  acknowledgedPublicRoutes : List Path :=
    ["/health".toList, "/ready".toList, "/universal_webhook/\x7btopic\x7d".toList,
      "/trigger/\x7btoken\x7d".toList, "/\x7bspa_path:path\x7d".toList]
  alwaysPublicRoutePatterns : List String := ["/api/plugins/[^/]+/studio/.+"]
  /-- `compiled_patterns`: the explicit patterns with the template each one maps to. -/
  pathPatterns : List (String × Path) := []

/-- `is_always_public_prefix` -/
def isAlwaysPublicPrefix (settings : Settings) (path : Path) : Bool :=
  settings.alwaysPublicPathPrefixes.any (underPrefix path)

/-- `_is_reserved_prefix` -/
def isReservedPrefix (settings : Settings) (path : Path) : Bool :=
  settings.reservedPublicPinPrefixes.any (underPrefix path)

/-- `matches_always_public_route_pattern` -/
def matchesAlwaysPublicRoutePattern (regexes : Regexes) (settings : Settings) (path : Path) :
    Bool :=
  settings.alwaysPublicRoutePatterns.any fun pattern => regexes.fullmatch pattern path

end TaiSkeleton.AccessControl
