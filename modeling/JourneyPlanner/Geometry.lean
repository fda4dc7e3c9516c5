import JourneyPlanner.Decimal.Double

/-!
# Distances on the globe

Points are pairs of longitude and latitude in degrees. Distances follow great circles; the point of
a street that is nearest to a station is found in the plane of degrees.
-/

namespace JourneyPlanner

/-- Longitude and latitude in degrees. -/
structure Point where
  longitude : Float
  latitude : Float

/-- The mean radius of the Earth in metres. -/
def earthRadius : Float := 6371008.8

/-- An angle in radians. -/
def radians (degrees : Float) : Float := degrees * (3.14159265358979323846 / 180.0)

/-- The great-circle distance of two points in metres. -/
def Point.distance (a b : Point) : Float :=
  let sinLatitude := Float.sin (radians (b.latitude - a.latitude) / 2.0)
  let sinLongitude := Float.sin (radians (b.longitude - a.longitude) / 2.0)
  let chord := sinLatitude * sinLatitude +
    Float.cos (radians a.latitude) * Float.cos (radians b.latitude) *
      (sinLongitude * sinLongitude)
  earthRadius * (2.0 * Float.asin (Float.sqrt chord))

/-- A finite double as a multiple of the least positive one. -/
def exactUnits? (x : Float) : Option Int :=
  match Decimal.Double.ofFloat x with
  | .finite negative significand exponent =>
    let units : Int := significand <<< (exponent + 1074).toNat
    some (if negative then -units else units)
  | _ => none

/-- The two coordinates of a point as exact multiples. -/
def Point.exact? (p : Point) : Option (Int × Int) :=
  match exactUnits? p.longitude, exactUnits? p.latitude with
  | some x, some y => some (x, y)
  | _, _ => none

/-- Whether a value lies between two bounds, given in either order. -/
def isBetween (a b x : Float) : Bool :=
  if a < b then decide (a ≤ x) && decide (x ≤ b) else decide (b ≤ x) && decide (x ≤ a)

/-- Whether a point lies on a segment, decided exactly. -/
def Point.isOnSegment (p start stop : Point) : Bool :=
  isBetween start.longitude stop.longitude p.longitude &&
    isBetween start.latitude stop.latitude p.latitude &&
    match start.exact?, stop.exact?, p.exact? with
    | some a, some b, some q => (b.1 - a.1) * (q.2 - a.2) == (b.2 - a.2) * (q.1 - a.1)
    | _, _, _ => false

/-- The point of a segment nearest to `p` in the plane of degrees; the start of a segment without
length. -/
def Point.nearestOnSegment (p start stop : Point) : Point :=
  let dx := stop.longitude - start.longitude
  let dy := stop.latitude - start.latitude
  if dx == 0.0 && dy == 0.0 then start
  else
    let along := ((p.longitude - start.longitude) * dx + (p.latitude - start.latitude) * dy) /
      (dx * dx + dy * dy)
    if along < 0.0 then start
    else if along > 1.0 then stop
    else if p.isOnSegment start stop then p
    else ⟨start.longitude + along * dx, start.latitude + along * dy⟩

end JourneyPlanner
